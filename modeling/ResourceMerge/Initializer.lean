import Std.Data.TreeMap
import ResourceMerge.Symbols.SymbolTable

/-! Replaying a class initialiser. A compiler turns an array constant into: push the length, create
    the array, then for each index copy the reference, push index and value and store, and at last
    put the array into its field. The replay keeps an operand stack of integers and array references
    and at most one array under construction; every reference on the stack means that array. Putting
    the array into a field requires that each of its indices was written, offers the contents to the
    symbol table under the field's name, and clears the stack. Branches are not followed, and an
    instruction that is not interpreted has no effect.

    A replay that meets an error keeps the state it had reached, without the operands popped. -/

namespace ResourceMerge.Initializer

/-- An operand. -/
inductive Slot where
  | int (value : Int32)
  | array
  deriving DecidableEq

/-- An array under construction: its length, and the last value written at each index written. -/
structure PendingArray where
  length : Nat
  written : Std.TreeMap Nat Int32

namespace PendingArray

/-- A new array, nothing written. -/
def new (length : Nat) : PendingArray := ⟨length, ∅⟩

/-- The array after writing `value` at `index`, if that lies within it. -/
def store (a : PendingArray) (index value : Int32) : Except StreamFault PendingArray :=
  if 0 ≤ index ∧ index.toInt.toNat < a.length then
    .ok { a with written := a.written.insert index.toInt.toNat value }
  else .error (.indexOutOfBounds index a.length)

/-- The values at `count` indices from `index` on, behind those of `done` (kept in reverse), or the
    first of these indices that was never written. -/
def valuesFrom (a : PendingArray) (index : Nat) (done : List Int32) :
    (count : Nat) → Except Nat (List Int32)
  | 0 => .ok done.reverse
  | count + 1 =>
    match a.written[index]? with
    | none => .error index
    | some value => valuesFrom a (index + 1) (value :: done) count

/-- The contents, or the first index never written. -/
def contents (a : PendingArray) : Except Nat (List Int32) := a.valuesFrom 0 [] a.length

end PendingArray

/-- The state of a replay; the top of the stack comes first. -/
structure Machine where
  stack : List Slot
  pending : Option PendingArray
  table : SymbolTable
  committed : Nat

/-- A replay about to begin on a table. -/
def Machine.start (table : SymbolTable) : Machine := ⟨[], none, table, 0⟩

/-- A piece of a replay. -/
abbrev Replay := EStateM Error Machine

/-- Ends the replay with a fault of the stream. -/
def fault {α : Type} (f : StreamFault) : Replay α := throw (.malformed f)

/-- Pushes an operand. -/
def push (slot : Slot) : Replay Unit := modify fun m => { m with stack := slot :: m.stack }

/-- Pops an operand, if there is one. -/
def pop? : Replay (Option Slot) := fun m =>
  match m.stack with
  | [] => .ok none m
  | slot :: rest => .ok (some slot) { m with stack := rest }

/-- Pops an integer that serves as `role`. -/
def popInt (role : String) : Replay Int32 := do
  match ← pop? with
  | some (.int value) => return value
  | some .array => fault (.operandIsArray role)
  | none => fault (.operandMissing role)

/-- Creates an array of the length on the stack. -/
def newArray : Replay Unit := do
  let length ← popInt "newarray"
  if length < 0 then fault (.negativeLength length)
  if (← get).pending.isSome then fault .arrayPending
  modify fun m => { m with pending := some (.new length.toInt.toNat) }
  push .array

/-- Copies the top of the stack. -/
def duplicate : Replay Unit := do
  match (← get).stack with
  | [] => fault .dupOnEmpty
  | top :: _ => push top

/-- Pops value, index and reference and writes the value into the array under construction. -/
def storeElement : Replay Unit := do
  match (← get).pending with
  | none => fault .storeWithoutArray
  | some array =>
    let value ← popInt "iastore value"
    let index ← popInt "iastore index"
    match ← pop? with
    | some .array =>
      match array.store index value with
      | .ok array => modify fun m => { m with pending := some array }
      | .error f => fault f
    | some (.int v) => fault (.storeIntoInt v)
    | none => fault .storeWithoutReference

/-- Offers the finished contents to the symbol table; a conflict leaves the stack alone. -/
def offerArray (name : String) (values : List Int32) : Replay Unit := fun m =>
  match SymbolTable.insertArray name values m.table with
  | .ok () table => .ok () { m with table, stack := [], committed := m.committed + 1 }
  | .error e table => .error e { m with table }

/-- Ends the construction of the array and gives it the name of the field. -/
def commit (name : String) : Replay Unit := do
  match (← get).pending with
  | none => fault (.fieldWithoutArray name)
  | some array =>
    modify fun m => { m with pending := none }
    match array.contents with
    | .error index => fault (.neverWritten name index)
    | .ok values => offerArray name values

/-- One instruction; false once the body is left. -/
def step : Instruction → Replay Bool
  | .pushSmall v | .pushByte v | .pushShort v | .pushConstant v => do push (.int v); return true
  | .newIntArray => do newArray; return true
  | .dup => do duplicate; return true
  | .arrayStore => do storeElement; return true
  | .storeField field => do commit field.name; return true
  | .finish => return false
  | .other _ => return true

/-- Instructions up to the one that leaves the body, or all; how many arrays got into fields. -/
def run : List Instruction → Replay Nat
  | [] => return (← get).committed
  | insn :: rest => do
    if ← step insn then run rest
    else return (← get).committed

end ResourceMerge.Initializer

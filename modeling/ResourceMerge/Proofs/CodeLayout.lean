import ResourceMerge.Instruction.Basic
import ResourceMerge.Instruction.Opcode
import ResourceMerge.Proofs.PoolContents

/-! The layout of method bodies. A body is a sequence of instructions without gaps, each an opcode
    and its operands. How many operand bytes there are depends on the opcode and, for the switches
    and behind `wide`, on the operands themselves; those of a switch begin with padding, so that they
    depend on the place of the instruction too.

    An instruction stands for what it does if it takes part in building arrays, and otherwise for
    its opcode alone. -/

namespace ResourceMerge

open Binary

/-! ### Operand layouts -/

namespace Opcode

/-- What holds for each of the 256 numbers holds for every opcode. -/
theorem forall_of_byte {p : UInt8 → Prop} (h : ∀ n : Fin 256, p (UInt8.ofNat n)) (op : UInt8) :
    p op := by
  simpa using h ⟨op.toNat, op.toNat_lt⟩

/-- The operands of all opcodes in order: so many opcodes in a row have the layout, or are not
    defined. -/
def forms : List (Nat × Option Operands) :=
  [(16, some (.fixed 0)),                         -- up to the constants of one byte
   (1, some (.fixed 1)), (1, some (.fixed 2)),    -- bytes and shorts
   (1, some (.fixed 1)), (2, some (.fixed 2)),    -- constants of the pool
   (5, some (.fixed 1)), (28, some (.fixed 0)),   -- loads
   (5, some (.fixed 1)), (25, some (.fixed 0)),   -- stores
   (48, some (.fixed 0)),                         -- stack and arithmetic
   (1, some (.fixed 2)), (20, some (.fixed 0)),   -- increment, conversions, comparisons
   (16, some (.fixed 2)), (1, some (.fixed 1)),   -- jumps, return to a local address
   (1, some .tableSwitch), (1, some .lookupSwitch),
   (6, some (.fixed 0)),                          -- returns
   (7, some (.fixed 2)), (2, some (.fixed 4)),    -- fields and calls
   (1, some (.fixed 2)), (1, some (.fixed 1)), (1, some (.fixed 2)), (2, some (.fixed 0)),
   (2, some (.fixed 2)), (2, some (.fixed 0)),    -- casts, monitors
   (1, some .wide), (1, some (.fixed 3)), (2, some (.fixed 2)), (2, some (.fixed 4)),
   (1, some (.fixed 0)), (51, none), (2, some (.fixed 0))]

/-- The layout at a place among rows of opcodes. -/
def formAt : List (Nat × Option Operands) → Nat → Option Operands
  | [], _ => none
  | (count, form) :: rows, place => if place < count then form else formAt rows (place - count)

/-- The operands of an opcode. -/
def form? (op : UInt8) : Option Operands := formAt forms op.toNat

/-- The opcodes that `wide` applies to, with the bytes behind them: the increment, the loads, the
    stores and the return to a local address. -/
def widened : List (UInt8 × Nat) :=
  [(0x84, 4), (0x15, 2), (0x16, 2), (0x17, 2), (0x18, 2), (0x19, 2), (0x36, 2), (0x37, 2),
   (0x38, 2), (0x39, 2), (0x3a, 2), (0xa9, 2)]

theorem operands?_eq_form? (op : UInt8) : operands? op = form? op :=
  forall_of_byte (p := fun op => operands? op = form? op) (by decide +kernel) op

theorem wideOperands?_eq_lookup (op : UInt8) : wideOperands? op = widened.lookup op :=
  forall_of_byte (p := fun op => wideOperands? op = widened.lookup op) (by decide +kernel) op

end Opcode

/-- The padding of a switch at `pc`: as few bytes as bring what follows to a multiple of four from
    the start of the body. -/
def Pads (pc : Nat) (padding : List UInt8) : Prop :=
  padding.length < 4 ∧ (pc + 1 + padding.length) % 4 = 0

/-- The bytes are the operands, in the given layout, of an instruction at `pc`. -/
inductive OperandBytes (pc : Nat) : Opcode.Operands → List UInt8 → Prop where
  | fixed {size : Nat} {bytes : List UInt8} (hsize : bytes.length = size) :
      OperandBytes pc (.fixed size) bytes
  | tableSwitch {padding defaultTarget targets : List UInt8} {low high : Int32}
      (hpadding : Pads pc padding) (hdefault : defaultTarget.length = 4)
      (hrange : 0 ≤ high.toInt - low.toInt + 1)
      (htargets : (targets.length : Int) = 4 * (high.toInt - low.toInt + 1)) :
      OperandBytes pc .tableSwitch (padding ++ (defaultTarget ++ (i32 low ++ (i32 high ++ targets))))
  | lookupSwitch {padding defaultTarget pairs : List UInt8} {count : Int32}
      (hpadding : Pads pc padding) (hdefault : defaultTarget.length = 4) (hcount : 0 ≤ count.toInt)
      (hpairs : (pairs.length : Int) = 8 * count.toInt) :
      OperandBytes pc .lookupSwitch (padding ++ (defaultTarget ++ (i32 count ++ pairs)))
  | wide {inner : UInt8} {size : Nat} {bytes : List UInt8}
      (hinner : Opcode.widened.lookup inner = some size) (hsize : bytes.length = size) :
      OperandBytes pc .wide (inner :: bytes)

/-! ### Instructions and bodies -/

/-- One instruction as it stands in a body. -/
structure CodeUnit where
  opcode : UInt8
  operands : List UInt8
  deriving DecidableEq

namespace CodeUnit

/-- The bytes of the instruction. -/
def bytes (u : CodeUnit) : List UInt8 := u.opcode :: u.operands

/-- The opcode is defined, and the operands that belong to it at `pc` are all there. -/
def Complete (pc : Nat) (u : CodeUnit) : Prop :=
  ∃ form, Opcode.form? u.opcode = some form ∧ OperandBytes pc form u.operands

/-- What has to be looked up is there: a constant that is loaded is one that the pool holds, a field
    that is stored into has a class, a name and a type. -/
structure Resolves (pool : ConstantPool) (u : CodeUnit) : Prop where
  constant : u.opcode = 0x12 ∨ u.opcode = 0x13 →
    ∃ i c, number u.operands = UInt16.toNat i ∧ pool.Holds i c
  field : u.opcode = 0xb3 →
    ∃ i field, number u.operands = UInt16.toNat i ∧ pool.HoldsField i field

/-- The opcodes that can be told apart: small constants, bytes, shorts, constants of the pool, new
    arrays, copies, stores into arrays and fields, and the end. -/
def interpreted : List UInt8 :=
  [0x03, 0x04, 0x05, 0x06, 0x07, 0x08, 0x10, 0x11, 0x12, 0x13, 0xbc, 0x59, 0x4f, 0xb3, 0xb1]

/-- What an instruction of a body means, given the pool that its operands refer to. -/
inductive Means (pool : ConstantPool) : CodeUnit → Instruction → Prop where
  | small {n : Nat} (hn : n ≤ 5) : Means pool ⟨0x03 + UInt8.ofNat n, []⟩ (.pushSmall (Int32.ofNat n))
  | byte {v : Int8} : Means pool ⟨0x10, [v.toUInt8]⟩ (.pushByte v.toInt32)
  | short {v : Int16} : Means pool ⟨0x11, u16 v.toUInt16⟩ (.pushShort v.toInt32)
  | constant {i : UInt8} {v : Int32} (hc : pool.Holds i.toUInt16 (.integer v)) :
      Means pool ⟨0x12, [i]⟩ (.pushConstant v)
  | otherConstant {i : UInt8} {c : Constant} (hc : pool.Holds i.toUInt16 c)
      (hother : ∀ v, c ≠ .integer v) : Means pool ⟨0x12, [i]⟩ (.other 0x12)
  | wideConstant {i : UInt16} {v : Int32} (hc : pool.Holds i (.integer v)) :
      Means pool ⟨0x13, u16 i⟩ (.pushConstant v)
  | otherWideConstant {i : UInt16} {c : Constant} (hc : pool.Holds i c)
      (hother : ∀ v, c ≠ .integer v) : Means pool ⟨0x13, u16 i⟩ (.other 0x13)
  | newIntArray : Means pool ⟨0xbc, [10]⟩ .newIntArray
  | newOtherArray {element : UInt8} (hother : element ≠ 10) : Means pool ⟨0xbc, [element]⟩ (.other 0xbc)
  | dup : Means pool ⟨0x59, []⟩ .dup
  | arrayStore : Means pool ⟨0x4f, []⟩ .arrayStore
  | storeField {i : UInt16} {field : FieldRef} (hfield : pool.HoldsField i field)
      (harray : field.descriptor = "[I") : Means pool ⟨0xb3, u16 i⟩ (.storeField field)
  | storeOtherField {i : UInt16} {field : FieldRef} (hfield : pool.HoldsField i field)
      (hother : field.descriptor ≠ "[I") : Means pool ⟨0xb3, u16 i⟩ (.other 0xb3)
  | finish : Means pool ⟨0xb1, []⟩ .finish
  | other {u : CodeUnit} (hother : u.opcode ∉ interpreted) : Means pool u (.other u.opcode)

end CodeUnit

/-- The code, which stands at `pc`, is these instructions one after the other, each complete where it
    stands. -/
inductive Splits : Nat → List UInt8 → List CodeUnit → Prop where
  | nil {pc : Nat} : Splits pc [] []
  | cons {pc : Nat} {u : CodeUnit} {code : List UInt8} {units : List CodeUnit}
      (hunit : u.Complete pc) (hcode : Splits (pc + u.bytes.length) code units) :
      Splits pc (u.bytes ++ code) (u :: units)

/-- Instructions that are complete wherever they stand make a body in any number. -/
theorem splits_of_complete : ∀ {units : List CodeUnit} (pc : Nat),
    (∀ u ∈ units, ∀ pc, CodeUnit.Complete pc u) → Splits pc (units.flatMap CodeUnit.bytes) units
  | [], _, _ => .nil
  | _ :: _, _, h => .cons (h _ List.mem_cons_self _)
      (splits_of_complete _ fun u hu => h u (List.mem_cons_of_mem _ hu))

theorem splits_nil_iff {pc : Nat} {units : List CodeUnit} : Splits pc [] units ↔ units = [] := by
  constructor
  · rintro ⟨⟩
    rfl
  · rintro rfl
    exact .nil

theorem splits_cons_iff {pc : Nat} {u : CodeUnit} {code : List UInt8} {units : List CodeUnit} :
    Splits pc code (u :: units) ↔
      ∃ rest, code = u.bytes ++ rest ∧ u.Complete pc ∧ Splits (pc + u.bytes.length) rest units := by
  constructor
  · rintro (_ | ⟨hunit, hcode⟩)
    exact ⟨_, rfl, hunit, hcode⟩
  · rintro ⟨rest, rfl, hunit, hcode⟩
    exact .cons hunit hcode

end ResourceMerge

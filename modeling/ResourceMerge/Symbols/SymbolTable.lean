import ResourceMerge.Error
import ResourceMerge.Symbols.Registry

/-! The merged table of resource constants: integers and arrays of integers, each in a registry of
    its own, so that one name may stand for a scalar and for an array. An insertion that contradicts
    the table is a conflict and leaves the table as it was. A merge inserts the entries of another
    table one by one, scalars first, and keeps what it had inserted when it meets a conflict. -/

namespace ResourceMerge

/-- Scalars and arrays by name. -/
structure SymbolTable where
  scalars : Registry Int32
  arrays : Registry (List Int32)
  deriving DecidableEq

namespace SymbolTable

/-- The table without names. -/
def empty : SymbolTable := ⟨.empty, .empty⟩

instance : Inhabited SymbolTable := ⟨empty⟩

/-- A change to a table that may end in an error; the table it ends with is kept either way. -/
abbrev Update := EStateM Error SymbolTable

/-- Offers a scalar. -/
def insertScalar (name : String) (value : Int32) : Update Unit := fun t =>
  match t.scalars.offer name value with
  | .ok scalars => .ok () { t with scalars }
  | .error held => .error (.conflict name (.scalar held) (.scalar value)) t

/-- Offers an array. -/
def insertArray (name : String) (values : List Int32) : Update Unit := fun t =>
  match t.arrays.offer name values with
  | .ok arrays => .ok () { t with arrays }
  | .error held => .error (.conflict name (.array held) (.array values)) t

/-- Offers every entry of another table, in its order, scalars first. -/
def merge (other : SymbolTable) : Update Unit := do
  other.scalars.entries.forM fun entry => insertScalar entry.1 entry.2
  other.arrays.entries.forM fun entry => insertArray entry.1 entry.2

/-- The scalar of a name. -/
def scalar? (t : SymbolTable) (name : String) : Option Int32 := t.scalars.find? name

/-- The array of a name. -/
def array? (t : SymbolTable) (name : String) : Option (List Int32) := t.arrays.find? name

/-- Scalars and arrays together. -/
def size (t : SymbolTable) : Nat := t.scalars.size + t.arrays.size

/-- Do two tables hold the same values under the same names, in whatever order? -/
def sameEntries (t u : SymbolTable) : Bool :=
  t.scalars.sameEntries u.scalars && t.arrays.sameEntries u.arrays

end SymbolTable

end ResourceMerge

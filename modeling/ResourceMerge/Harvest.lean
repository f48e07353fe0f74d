import ResourceMerge.ClassFile.Basic
import ResourceMerge.Initializer
import ResourceMerge.NameFilter

/-! What compiled classes contribute to the merged table. A class contributes its integer constants,
    each under the simple name of the class and the name of the field, and then the arrays that its
    initialiser builds. A class whose simple name the filter rejects contributes nothing, but it
    must still be a class file. Many classes are merged in their order, each through a table of its
    own, and the first error in that order ends the merge. -/

namespace ResourceMerge

/-- The last component of a class name. -/
def simpleName (className : String) : String :=
  String.ofList (className.toList.reverse.takeWhile (· ≠ '/')).reverse

namespace Harvest

/-- The name of a constant in the merged table. -/
def qualified (simple field : String) : String := simple ++ "." ++ field

/-- Offers the integer constants of a class. -/
def insertConstants (simple : String) (fields : List Field) : SymbolTable.Update Unit :=
  fields.forM fun field =>
    match field.intConstant with
    | some value => SymbolTable.insertScalar (qualified simple field.name) value
    | none => pure ()

/-- Replays a stream of instructions into a table; how many arrays were put into fields. -/
def replay (insns : List Instruction) : SymbolTable.Update Nat := fun table =>
  match Initializer.run insns (.start table) with
  | .ok n m => .ok n m.table
  | .error e m => .error e m.table

/-- Offers all that an accepted class contributes. -/
def contribute (file : ClassFile) : SymbolTable.Update Unit := do
  insertConstants (simpleName file.thisClass) file.fields
  match file.initializer? with
  | none => pure ()
  | some method =>
    match file.instructions method with
    | .error e => throw e
    | .ok insns => let _ ← replay insns

/-- The table that a change leads to, if it succeeds. -/
def outcome {α : Type} (update : SymbolTable.Update α) (table : SymbolTable) :
    Except Error SymbolTable :=
  match update table with
  | .ok _ table => .ok table
  | .error e _ => .error e

/-- The table of one class. -/
def ofClass (filter : NameFilter) (bytes : List UInt8) : Except Error SymbolTable := do
  let file ← ClassFile.ofBytes bytes
  if filter.accepts (simpleName file.thisClass) then outcome (contribute file) .empty
  else return .empty

/-- Merges the tables of several classes, in order. -/
def mergeAll (filter : NameFilter) (inputs : List (List UInt8)) : SymbolTable.Update Unit :=
  inputs.forM fun bytes =>
    match ofClass filter bytes with
    | .ok table => SymbolTable.merge table
    | .error e => throw e

/-- The merged table of several classes. -/
def ofClasses (filter : NameFilter) (inputs : List (List UInt8)) : Except Error SymbolTable :=
  outcome (mergeAll filter inputs) .empty

end Harvest

end ResourceMerge

import ResourceMerge.ClassFile.ClassDraft
import ResourceMerge.Harvest

/-! The class that a merged table is written as: a field for each array, in the order of the table,
    then a constant field for each scalar that belongs to the class, then an initialiser that builds
    the arrays. A scalar belongs to the class if its name starts with the simple name of the class
    and a dot; the others are not written. -/

namespace ResourceMerge.MergedClass

/-- The name and version of the class to be written. -/
structure Target where
  className : String
  classVersion : UInt16
  deriving DecidableEq

/-- The name of the class where none is chosen. -/
def defaultName : String := "R$styleable"

/-- The version of the class where none is chosen. -/
def defaultVersion : UInt16 := 50

/-- The class where nothing is chosen. -/
def defaultTarget : Target := ⟨defaultName, defaultVersion⟩

/-- The superclass. -/
def superName : String := "java/lang/Object"

/-- The descriptor of an integer field. -/
def intDescriptor : String := "I"

/-- A length or an index as an operand; what exceeds the greatest operand becomes that. -/
def sizeOperand (n : Nat) : Int32 :=
  if n ≤ 2147483647 then Int32.ofNat n else 2147483647

/-- Writes one value to the array on top of the stack. -/
def storeInstructions (entry : Int32 × Nat) : List Instruction :=
  [.dup, .push (sizeOperand entry.2), .push entry.1, .arrayStore]

/-- Builds one array and puts it into its field. -/
def arrayInstructions (owner : String) (entry : String × List Int32) : List Instruction :=
  .push (sizeOperand entry.2.length) :: .newIntArray
    :: (entry.2.zipIdx.flatMap storeInstructions ++ [.storeField (.intArray owner entry.1)])

/-- The initialiser that builds every array of a table. -/
def initializer (table : SymbolTable) (owner : String) : List Instruction :=
  table.arrays.entries.flatMap (arrayInstructions owner) ++ [.finish]

/-- The text behind `start`, if a text starts with it. -/
def rest? (start name : String) : Option String :=
  (start.toList.isPrefixOf? name.toList).map String.ofList

/-- The field of the class `owner` that a scalar becomes, if it belongs to the class. -/
def ownField? (owner name : String) : Option String := rest? (simpleName owner ++ ".") name

/-- Adds the field of an array. -/
def addArray (entry : String × List Int32) : ClassDraft.Step Unit :=
  ClassDraft.addField .ofConstant entry.1 intArrayDescriptor none

/-- Adds the field of a scalar, if the scalar belongs to the class. -/
def addScalar (owner : String) (entry : String × Int32) : ClassDraft.Step Unit :=
  match ownField? owner entry.1 with
  | some field => ClassDraft.addField .ofConstant field intDescriptor (some entry.2)
  | none => pure ()

/-- Adds all members of the class. -/
def addMembers (table : SymbolTable) (owner : String) : ClassDraft.Step Unit := do
  table.arrays.entries.forM addArray
  table.scalars.entries.forM (addScalar owner)
  ClassDraft.addMethod .ofInitializer ClassFile.initializerName ClassFile.initializerDescriptor
    (initializer table owner) 0

/-- The class file of a table. -/
def build (table : SymbolTable) (target : Target) : Except Error (List UInt8) := do
  let draft ← ClassDraft.start target.className superName .ofGeneratedClass target.classVersion
  match addMembers table target.className draft with
  | .ok () draft => draft.write
  | .error e _ => .error e

end ResourceMerge.MergedClass

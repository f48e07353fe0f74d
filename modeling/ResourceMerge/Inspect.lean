import ResourceMerge.Instruction.Listing
import ResourceMerge.Merge
import ResourceMerge.Symbols.Document

/-! Looking into one class file: as a listing of its version, its fields with their integer
    constants and the instructions of its initialiser, or as the document of what it contributes to
    a merge, whatever its name. -/

namespace ResourceMerge.Inspect

open Files

/-- The line of a field. -/
def fieldLine (field : Field) : String :=
  "  field " ++ field.name ++ ":" ++ field.descriptor ++
    match field.intConstant with
    | some value => " = 0x" ++ Text.bits value ++ "\n"
    | none => "\n"

/-- The lines above the initialiser. -/
def heading (file : ClassFile) : String :=
  "class " ++ file.thisClass ++ " (major " ++ toString file.majorVersion ++ ")\n"
    ++ String.join (file.fields.map fieldLine) ++ "\n"

/-- The initialiser of a class. -/
def initializerText (file : ClassFile) : Except Error String := do
  match file.initializer? with
  | none => return "(no <clinit>)\n"
  | some method => return Instruction.titledListing (← file.instructions method) file.thisClass

variable {m : Type → Type} [Monad m] [Host m]

/-- Reads a class file. -/
def readClass (path : String) : m (Except Error ClassFile) := do
  match ← Host.readFile path with
  | .error cause => return .error (.io cause)
  | .ok bytes => return ClassFile.ofBytes bytes

/-- The listing of a class file. -/
def listing (path : String) : Job m String := do
  let file ← Job.during (.decoding path) do Job.ofExcept (← Job.ask (readClass path))
  let initializer ← Job.during (.decodingInitializer path) (Job.ofExcept (initializerText file))
  return heading file ++ initializer

/-- What a class file contributes to a merge, as an indented document. -/
def table (path : String) : Job m String := do
  let bytes ← Merge.readInput path
  let table ← Job.during (.decoding path) (Job.ofExcept do
    Harvest.ofClass (← NameFilter.ofGlob "*") bytes)
  return table.document.indented

end ResourceMerge.Inspect

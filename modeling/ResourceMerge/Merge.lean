import ResourceMerge.Binary.Checksum
import ResourceMerge.Failure
import ResourceMerge.Files.Host
import ResourceMerge.Settings.Basic
import ResourceMerge.Text.Json

/-! A merge from end to end: the inputs are collected, read, harvested into one table and written as
    one class. Nothing is written before everything else has succeeded. An input that is a file
    takes part whatever its name; below an input that is a directory those files take part whose
    names the filter accepts, in the order of their components. -/

namespace ResourceMerge

open Files

variable {m : Type → Type} [Monad m] [Host m]

namespace Merge

/-- The files below a directory whose names the filter accepts, sorted. -/
def accepted (filter : NameFilter) (found : List (List String)) : List (List String) :=
  (found.filter fun place => filter.acceptsFile (place.getLastD "")).mergeSort
    fun a b => (compare a b).isLE

/-- The files that an input stands for. -/
def collectRoot (filter : NameFilter) (root : String) : Job m (List String) := do
  if ← Job.ask (Host.isFile root) then return [root]
  if !(← Job.ask (Host.isDirectory root)) then Job.stop (.missingInput root)
  match ← Job.ask (Host.filesBelow root) with
  | .ok found => return (accepted filter found).map fun place => place.foldl Path.join root
  | .error (path, cause) => Job.during (.searching root) (Job.stop (.closedDirectory path cause))

/-- The files that all inputs stand for, input by input. -/
def collect (filter : NameFilter) (roots : List String) : Job m (List String) :=
  return (← roots.mapM (collectRoot filter)).flatten

/-- The contents of a file. -/
def readInput (path : String) : Job m (List UInt8) :=
  Job.during (.reading path) do Job.ofAnswer (← Job.ask (Host.readFile path))

/-- The path that a class is written to. -/
def outputPath (directory className : String) : String :=
  Path.join directory (className ++ ".class")

/-- Writes a class file, creating the directories it goes through; the answer is its path. -/
def writeClass (directory className : String) (bytes : List UInt8) : m (Except Error String) := do
  let path := outputPath directory className
  let parent := (Path.parent? path).getD directory
  match ← makeDirectories parent with
  | .error cause => return .error (.settings (.noOutputDirectory parent cause))
  | .ok () =>
    match ← replaceFile path bytes with
    | .error cause => return .error (.io cause)
    | .ok () => return .ok path

/-- Builds the class of a table and writes it. -/
def emit (table : SymbolTable) (directory : String) (target : MergedClass.Target) :
    m (Except Error String) := do
  match MergedClass.build table target with
  | .error e => return .error e
  | .ok bytes => writeClass directory target.className bytes

/-- What a merge did. -/
structure Report where
  inputs : List String
  scalars : Nat
  arrays : Nat
  output : String
  size : Nat
  checksum : UInt32

/-- Does what a plan says. -/
def run (plan : MergePlan) : Job m Report := do
  let filter ← Job.ofExcept (NameFilter.ofGlob plan.filter)
  let inputs ← collect filter plan.inputs
  let contents ← inputs.mapM readInput
  let table ← Job.during .merging (Job.ofExcept (Harvest.ofClasses filter contents))
  let bytes ← Job.during .building (Job.ofExcept (MergedClass.build table plan.target))
  let output ← Job.during (.writing plan.outputDirectory) do
    Job.ofExcept (← Job.ask (writeClass plan.outputDirectory plan.target.className bytes))
  return ⟨inputs, table.scalars.size, table.arrays.size, output, bytes.length, Binary.crc32 bytes⟩

/-- A report as a document; the time that the merge took comes last. -/
def Report.document (report : Report) (milliseconds : Nat) : Text.Json :=
  .object
    [("inputs", .list (report.inputs.map .text)),
     ("symbols", .number report.scalars),
     ("arrays", .number report.arrays),
     ("output", .text report.output),
     ("bytes", .number report.size),
     ("crc32", .number report.checksum.toNat),
     ("elapsed_ms", .number milliseconds)]

end Merge

end ResourceMerge

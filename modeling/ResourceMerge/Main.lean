import ResourceMerge.CommandLine.Program

/-! The program on a real file system: each operation of `Files.Host` is one operation of the
    system, and the refusals of the system are told apart by their codes. -/

namespace ResourceMerge.Main

open Files

/-- The code that the system gave with a refusal. -/
def errorCode : IO.Error → Option UInt32
  | .alreadyExists _ code _ => some code
  | .inappropriateType _ code _ => some code
  | .noFileOrDirectory _ code _ => some code
  | .invalidArgument _ code _ => some code
  | .permissionDenied _ code _ => some code
  | .otherError code _ => some code
  | _ => none

/-- A refusal by its code; some operations give the code with its sign turned. -/
def refusal (e : IO.Error) : OsError :=
  match (errorCode e).map fun code => if code < 0x80000000 then code else 0 - code with
  | some 2 => .notFound
  | some 17 => .alreadyExists
  | some 20 => .notDirectory
  | some 21 => .isDirectory
  | some 36 => .nameTooLong
  | some 40 => .tooManyLinks
  | _ => .other (toString e)

/-- An operation on paths with its refusal as an answer. The system takes a NUL for the end of a
    path, so a path with one is refused before. -/
def answer {α : Type} (paths : List String) (operation : IO α) : IO (Answer α) := do
  if paths.any fun path => path.toList.contains '\x00' then return .error .nulInPath
  try return .ok (← operation)
  catch e => return .error (refusal e)

/-- The entry of a directory that a path stands for. -/
def entryAt (path : String) : IO.FS.DirEntry := ⟨path, ""⟩

/-- The names of the directories and of the files in a directory. Links are neither. -/
def contents (path : String) : IO (List String × List String) := do
  let mut directories := []
  let mut files := []
  for entry in ← (entryAt path).path.readDir do
    match (← entry.path.symlinkMetadata).type with
    | .dir => directories := entry.fileName :: directories
    | .file => files := entry.fileName :: files
    | _ => pure ()
  return (directories, files)

/-- The files in a list of directories and below, each directory by its path and the components that
    lead to it. -/
partial def filesIn (done : List (List String)) :
    List (String × List String) → IO (Except (String × OsError) (List (List String)))
  | [] => return .ok done
  | (path, place) :: rest => do
    match ← answer [path] (contents path) with
    | .error cause => return .error (path, cause)
    | .ok (directories, files) =>
      filesIn (files.map (fun name => place ++ [name]) ++ done)
        (directories.map (fun name => (Path.join path name, place ++ [name])) ++ rest)

/-- Does a path lead to something of a type? -/
def leadsTo (type : IO.FS.FileType) (path : String) : IO Bool := do
  match ← answer [path] (entryAt path).root.metadata with
  | .ok metadata => return metadata.type == type
  | .error _ => return false

instance : Host IO where
  currentDirectory := answer [] do return (← IO.currentDir).toString
  isFile := leadsTo .file
  isDirectory := leadsTo .dir
  readFile path := answer [path] do return (← IO.FS.readBinFile path).toList
  filesBelow path := filesIn [] [(path, [])]
  makeDirectory path := answer [path] (IO.FS.createDir path)
  createNew path := answer [path] (discard (IO.FS.Handle.mk path .writeNew))
  fill path bytes := answer [path] do
    let handle ← IO.FS.Handle.mk path .write
    handle.write ⟨bytes.toArray⟩
    handle.flush
  rename source target := answer [source, target] (IO.FS.rename source target)
  removeFile path := answer [path] (IO.FS.removeFile path)
  scratchMark := return toString (← IO.monoNanosNow)
  milliseconds := IO.monoMsNow

end ResourceMerge.Main

/-- The program. -/
def main (arguments : List String) : IO UInt32 := do
  let outcome : ResourceMerge.CommandLine.Outcome ← ResourceMerge.CommandLine.run arguments
  (← IO.getStdout).putStr outcome.output
  (← IO.getStderr).putStr outcome.message
  return outcome.code

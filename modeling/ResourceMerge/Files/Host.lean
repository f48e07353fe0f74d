import ResourceMerge.Files.OsError
import ResourceMerge.Files.Path

/-! What a merge asks of the file system. The operations are those of the system, one step each;
    what is built from them here holds for any monad that offers them. -/

namespace ResourceMerge.Files

/-- The result of an operation that the system may refuse. -/
abbrev Answer (α : Type) := Except OsError α

/-- A monad with a file system. -/
class Host (m : Type → Type) where
  /-- the directory that relative paths start from -/
  currentDirectory : m (Answer String)
  /-- does the path lead to a file? -/
  isFile : String → m Bool
  /-- does the path lead to a directory? -/
  isDirectory : String → m Bool
  /-- the contents of a file -/
  readFile : String → m (Answer (List UInt8))
  /-- the files below a directory, by their components from there on; links are not followed, and a
      refusal comes with the path of the directory it is about -/
  filesBelow : String → m (Except (String × OsError) (List (List String)))
  /-- creates one directory -/
  makeDirectory : String → m (Answer Unit)
  /-- creates an empty file that must not exist yet -/
  createNew : String → m (Answer Unit)
  /-- writes the contents of a file; a refusal may come after part of them -/
  fill : String → List UInt8 → m (Answer Unit)
  /-- gives a file another path, in place of the file that has it -/
  rename : String → String → m (Answer Unit)
  /-- removes a file -/
  removeFile : String → m (Answer Unit)
  /-- a text that no other running program adds to its file names -/
  scratchMark : m String
  /-- the time, in milliseconds since some moment -/
  milliseconds : m Nat

variable {m : Type → Type} [Monad m] [Host m]

/-- Creates a directory; one that is there already will do. -/
def ensureDirectory (path : String) : m (Answer Unit) := do
  match ← Host.makeDirectory path with
  | .ok () => return .ok ()
  | .error refusal =>
    if ← Host.isDirectory path then return .ok () else return .error refusal

/-- Creates the first of several paths, each the parent of the one before, and those of its parents
    that are missing. The empty path is always there. -/
def makeFirst : List String → m (Answer Unit)
  | [] => return .ok ()
  | path :: parents => do
    if path.isEmpty then return .ok ()
    match ← Host.makeDirectory path with
    | .ok () => return .ok ()
    | .error .notFound =>
      match ← makeFirst parents with
      | .ok () => ensureDirectory path
      | .error refusal => return .error refusal
    | .error refusal =>
      if ← Host.isDirectory path then return .ok () else return .error refusal

/-- Creates a directory with all its parents. -/
def makeDirectories (path : String) : m (Answer Unit) := makeFirst (Path.ancestors path)

/-- The name of a temporary file beside a path. -/
def scratchPath (path mark : String) (attempt : Nat) : String :=
  path ++ ".tmp" ++ mark ++ "." ++ toString attempt

/-- Creates an empty temporary file beside a path, under the first free name from an attempt on; the
    answer is its path. -/
def createScratch (path mark : String) (attempt : Nat) : (attempts : Nat) → m (Answer String)
  | 0 => return .error .alreadyExists
  | attempts + 1 => do
    match ← Host.createNew (scratchPath path mark attempt) with
    | .ok () => return .ok (scratchPath path mark attempt)
    | .error .alreadyExists => createScratch path mark (attempt + 1) attempts
    | .error refusal => return .error refusal

/-- Fills a file and gives it another path. -/
def publish (scratch path : String) (bytes : List UInt8) : m (Answer Unit) := do
  match ← Host.fill scratch bytes with
  | .ok () => Host.rename scratch path
  | .error refusal => return .error refusal

/-- Writes a file by way of a temporary one, so that the path never holds part of the contents. The
    temporary file is removed where it cannot take the path. -/
def replaceFile (path : String) (bytes : List UInt8) : m (Answer Unit) := do
  match ← createScratch path (← Host.scratchMark) 0 4294967296 with
  | .error refusal => return .error refusal
  | .ok scratch =>
    match ← publish scratch path bytes with
    | .ok () => return .ok ()
    | .error refusal =>
      let _ ← Host.removeFile scratch
      return .error refusal

end ResourceMerge.Files

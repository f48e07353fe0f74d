import ResourceMerge.Files.Host
import ResourceMerge.Settings.Toml

/-! The settings file: found by its name in a directory or the nearest of its parents, read as
    UTF-8, and taken as a whole or not at all. A file that is named explicitly takes the place of
    the search. -/

namespace ResourceMerge.Settings

open Files

/-- The name of the settings file. -/
def fileName : String := "rshrink.toml"

/-- The settings of a text; the path only matters to the error. -/
def ofText (path : Option String) (text : String) : Except Error Settings :=
  match Toml.parse text with
  | some settings => .ok settings
  | none => .error (.settings (.invalid path))

/-- The settings of the contents of a file. -/
def ofBytes (path : String) : Answer (List UInt8) → Except Error Settings
  | .error cause => .error (.settings (.unreadable path cause))
  | .ok bytes =>
    match Text.strict? bytes with
    | none => .error (.settings (.unreadable path .notUtf8))
    | some text => ofText (some path) text

variable {m : Type → Type} [Monad m] [Host m]

/-- Reads a settings file. -/
def readFrom (path : String) : m (Except Error Settings) := do
  return ofBytes path (← Host.readFile path)

/-- The first path that leads to a file. -/
def firstFile : List String → m (Option String)
  | [] => return none
  | path :: rest => do
    if ← Host.isFile path then return some path else firstFile rest

/-- The settings file nearest to a directory, upwards. -/
def findFrom (start : String) : m (Option String) :=
  firstFile ((Path.ancestors start).map fun directory => Path.join directory fileName)

/-- The settings named explicitly, found from a directory, or none, and the path of their file. -/
def loadFrom (explicit : Option String) (start : String) :
    m (Except Error (Settings × Option String)) := do
  match ← (match explicit with
    | some path => return some path
    | none => findFrom start : m (Option String)) with
  | none => return .ok (.empty, none)
  | some path => return (← readFrom path).map fun settings => (settings, some path)

/-- The settings named explicitly, or found from the current directory, or none. -/
def load (explicit : Option String) : m (Except Error (Settings × Option String)) := do
  match ← Host.currentDirectory with
  | .error cause => return .error (.io cause)
  | .ok start => loadFrom explicit start

end ResourceMerge.Settings

/-! Paths as texts. A path keeps its spelling: joining and taking the parent cut or append text and
    never tidy it up. Slashes separate components; repeated slashes, slashes at the end and
    components that are a single dot (but for one at the very start) add nothing. -/

namespace ResourceMerge.Files.Path

/-- Does the path start from the root? -/
def isAbsolute (path : String) : Bool := path.toList.head? == some '/'

/-- A path taken from a base: an absolute path replaces the base, any other is put behind it, with a
    slash between the two unless the base is empty or ends in one. -/
def join (base path : String) : String :=
  if isAbsolute path then path
  else
    match base.toList.getLast? with
    | none | some '/' => base ++ path
    | some _ => base ++ "/" ++ path

/-- The text between slashes, empty pieces left out. -/
def pieces (path : String) : List String :=
  (path.toList.splitBy fun a b => a != '/' && b != '/').filterMap fun piece =>
    if piece.head? = some '/' then none else some (String.ofList piece)

/-- A path written backwards, without the slashes and single dots at its end. -/
def trimBack : List Char → List Char
  | '/' :: rest => trimBack rest
  | ['.'] => []
  | '.' :: '/' :: rest => trimBack rest
  | rest => rest

/-- A path written backwards, without its last component. -/
def dropBack (reversed : List Char) : List Char :=
  trimBack ((reversed.dropWhile (· ≠ '/')).drop 1)

/-- How many characters at the start are not to be trimmed: the slash of an absolute path, or the
    dot of one that starts with such a component. -/
def fixedStart (path : List Char) : Nat :=
  match path with
  | '/' :: _ => 1
  | ['.'] => 1
  | '.' :: '/' :: _ => 1
  | _ => 0

/-- The path without its last component; the root and the empty path have no parent. -/
def parent? (path : String) : Option String :=
  let cs := path.toList
  let start := cs.take (fixedStart cs)
  let body := trimBack (cs.drop (fixedStart cs)).reverse
  if body.isEmpty then if start = ['.'] then some "" else none
  else some (String.ofList (start ++ (dropBack body).reverse))

/-- The path and its parents, so many of them at most. -/
def ancestorsWithin : (count : Nat) → String → List String
  | 0, _ => []
  | count + 1, path =>
    path :: match parent? path with
      | some up => ancestorsWithin count up
      | none => []

/-- The path, its parent, the parent of that, and so on; each is shorter than the one before. -/
def ancestors (path : String) : List String := ancestorsWithin (path.length + 1) path

end ResourceMerge.Files.Path

import ResourceMerge.Files.Branch
import ResourceMerge.Files.Host

/-! A file system as a value: what stands in the root, and so on down to files and links. A place is
    the list of names from the root to an entry. Every way to an entry goes through directories; a
    link on the way, or at its end where links are followed, leads on from its target.

    The laws of `put` and `erase` say that a change shows at its own place and below, nowhere
    else. -/

namespace ResourceMerge.Files

/-- A file system, and the place of the current directory. -/
structure Tree where
  root : Entries
  current : List String

namespace Tree

/-- What stands at a place. -/
def find? (tree : Tree) (place : List String) : Option Node :=
  (Branch.directory tree.root).nodeAt place

/-- The tree with the entries of the directory changed that a place belongs to, for the last name of
    the place. The root belongs to none. -/
def edit (tree : Tree) (change : String → Entries → Entries) (place : List String) : Tree :=
  match place.getLast? with
  | none => tree
  | some name => { tree with root := Entries.within (change name) place.dropLast tree.root }

/-- The tree without the entry at a place. -/
def erase (tree : Tree) (place : List String) : Tree := tree.edit .without place

/-- The tree with an entry at a place whose directory is there. -/
def put (tree : Tree) (place : List String) (node : Node) : Tree :=
  tree.edit (fun name => .withNode name node) place

/-- A change of one entry shows in the directory of that entry and below it only. -/
theorem find?_edit (tree : Tree) (change : String → Entries → Entries) {directory : List String}
    (name : String) (h : tree.find? directory = some .directory) :
    ∃ entries : Entries,
      (∀ rest, tree.find? (directory ++ rest) = (Branch.directory entries).nodeAt rest) ∧
      (∀ rest, (tree.edit change (directory ++ [name])).find? (directory ++ rest) =
        (Branch.directory (change name entries)).nodeAt rest) ∧
      ∀ other, ¬ directory <+: other →
        (tree.edit change (directory ++ [name])).find? other = tree.find? other := by
  obtain ⟨entries, found⟩ := Branch.at?_eq_directory h
  simp only [edit, List.getLast?_concat, List.dropLast_concat]
  refine ⟨entries, fun rest => ?_, fun rest => ?_, fun other outside => ?_⟩
  · rw [find?, Branch.nodeAt, Branch.at?_append, found]
    rfl
  · rw [find?, Branch.nodeAt, Branch.at?_within (change name) found]
    rfl
  · exact Branch.nodeAt_within_outside (change name) directory tree.root outside

theorem concat_isPrefixOf (directory rest : List String) (name : String) :
    (directory ++ [name]).isPrefixOf (directory ++ rest) = (rest.head? == some name) := by
  induction directory with
  | nil => cases rest <;> simp [List.isPrefixOf, Bool.beq_comm]
  | cons first directory ih => simpa [List.isPrefixOf] using ih

theorem concat_isPrefixOf_outside {directory other : List String} (name : String)
    (h : ¬ directory <+: other) : (directory ++ [name]).isPrefixOf other = false := by
  rw [Bool.eq_false_iff, ne_eq, List.isPrefixOf_iff_prefix]
  exact fun inside => h ((List.prefix_append _ _).trans inside)

/-- A place has what was put there and nothing below it, and all other places keep what they had. -/
theorem find?_put (tree : Tree) {directory : List String} (name : String) (node : Node)
    (h : tree.find? directory = some .directory) (other : List String) :
    (tree.put (directory ++ [name]) node).find? other =
      if other = directory ++ [name] then some node
      else if (directory ++ [name]).isPrefixOf other then none else tree.find? other := by
  obtain ⟨entries, before, after, outside⟩ :=
    tree.find?_edit (fun name => .withNode name node) name h
  by_cases inside : directory <+: other
  · obtain ⟨rest, rfl⟩ := inside
    rw [put, after, before, concat_isPrefixOf]
    cases rest with
    | nil => simp [Branch.nodeAt, Branch.at?, Branch.node]
    | cons first rest =>
      simp only [Branch.nodeAt, Branch.at?_cons, Entries.lookup_withNode]
      by_cases hf : first = name
      · subst hf
        cases rest <;> cases node <;> simp [Node.branch, Branch.at?, Branch.node]
      · simp [hf]
  · have apart : other ≠ directory ++ [name] := fun e => inside (e ▸ List.prefix_append _ _)
    rw [put, outside other inside, if_neg apart, concat_isPrefixOf_outside name inside]
    simp

/-- Nothing stands at an erased place or below it, and all other places keep what they had. -/
theorem find?_erase (tree : Tree) {directory : List String} (name : String)
    (h : tree.find? directory = some .directory) (other : List String) :
    (tree.erase (directory ++ [name])).find? other =
      if (directory ++ [name]).isPrefixOf other then none else tree.find? other := by
  obtain ⟨entries, before, after, outside⟩ := tree.find?_edit .without name h
  by_cases inside : directory <+: other
  · obtain ⟨rest, rfl⟩ := inside
    rw [erase, after, before, concat_isPrefixOf]
    cases rest with
    | nil => simp [Branch.nodeAt, Branch.at?, Branch.node]
    | cons first rest =>
      simp only [Branch.nodeAt, Branch.at?_cons, Entries.lookup_without]
      by_cases hf : first = name <;> simp [hf]
  · rw [erase, outside other inside, concat_isPrefixOf_outside name inside]
    simp

/-! ### Ways -/

/-- Where a way ends: at an entry, or at a name that a directory does not have. -/
inductive End where
  | entry (place : List String) (node : Node)
  | vacant (place : List String)

/-- The way down to a directory: the names on it, the last first, each with the entries of its
    directory. -/
abbrev Trail := List (String × Entries)

/-- How far a way can be gone without following a link. -/
inductive Stretch where
  | arrived (at_ : End)
  | link (trail : Trail) (target : String) (rest : List String)
  | refused (cause : OsError)

/-- The place that a trail leads to. -/
def Trail.place (trail : Trail) : List String := (trail.map (·.1)).reverse

/-- The entries of the directory that a trail leads to. -/
def entriesAt (tree : Tree) : Trail → Entries
  | [] => tree.root
  | (_, entries) :: _ => entries

/-- The trail to a place, if a directory is there. -/
def trail? (tree : Tree) (place : List String) : Option Trail :=
  place.foldlM (fun trail name =>
    match (tree.entriesAt trail).lookup name with
    | some (.directory entries) => some ((name, entries) :: trail)
    | _ => none) []

/-- Goes along components from a directory up to the first link to be followed. A link at the end is
    followed if `follow` holds. -/
def stretch (tree : Tree) (follow : Bool) (trail : Trail) : List String → Stretch
  | [] => .arrived (.entry trail.place .directory)
  | "." :: rest => stretch tree follow trail rest
  | ".." :: rest => stretch tree follow trail.tail rest
  | name :: rest =>
    if name.utf8ByteSize > 255 then .refused .nameTooLong
    else
      match (tree.entriesAt trail).lookup name with
      | none =>
        if rest.isEmpty then .arrived (.vacant (trail.place ++ [name])) else .refused .notFound
      | some (.directory entries) => stretch tree follow ((name, entries) :: trail) rest
      | some (.file bytes) =>
        if rest.isEmpty then .arrived (.entry (trail.place ++ [name]) (.file bytes))
        else .refused .notDirectory
      | some (.link target) =>
        if rest.isEmpty && !follow then .arrived (.entry (trail.place ++ [name]) (.link target))
        else .link trail target rest

/-- Does a path end in a slash, so that it can only lead to a directory? -/
def wantsDirectory (path : String) : Bool := path.toList.getLast? == some '/'

/-- The components of a link's target; a slash at its end asks for a directory, as one more dot
    does. -/
def targetPieces (target : String) : List String :=
  if wantsDirectory target then Path.pieces target ++ ["."] else Path.pieces target

/-- Goes along components, following so many links at most. -/
def walk (tree : Tree) (follow : Bool) : (links : Nat) → Trail → List String → Answer End
  | links, trail, way =>
    match stretch tree follow trail way with
    | .arrived at_ => .ok at_
    | .refused cause => .error cause
    | .link trail target rest =>
      match links with
      | 0 => .error .tooManyLinks
      | links + 1 =>
        walk tree follow links (if Path.isAbsolute target then [] else trail)
          (targetPieces target ++ rest)

/-- The bytes that a path may have. -/
def maxPathSize : Nat := 4095

/-- The trail to the directory that a path starts from, if it is there. -/
def start? (tree : Tree) (path : String) : Option Trail :=
  if Path.isAbsolute path then some [] else tree.trail? tree.current

/-- The end of a path. -/
def locate (tree : Tree) (follow : Bool) (path : String) : Answer End :=
  if path.toList.contains '\x00' then .error .nulInPath
  else if path.isEmpty then .error .notFound
  else if path.utf8ByteSize > maxPathSize then .error .nameTooLong
  else
    match tree.start? path with
    | some trail => walk tree follow 40 trail (Path.pieces path)
    | none => .error .notFound

/-! ### Listings -/

mutual

/-- The node of a branch at a place (kept in reverse) and those below it, in front of others found
    (kept in reverse). -/
def listingOnto (found : List (List String × Node)) (place : List String) :
    Branch → List (List String × Node)
  | .file bytes => (place.reverse, .file bytes) :: found
  | .link target => (place.reverse, .link target) :: found
  | .directory entries =>
    entriesOnto ((place.reverse, .directory) :: found) place entries

/-- The nodes of entries of the directory at a place. -/
def entriesOnto (found : List (List String × Node)) (place : List String) :
    List (String × Branch) → List (List String × Node)
  | [] => found
  | (name, branch) :: rest =>
    entriesOnto (listingOnto found (name :: place) branch) place rest

end

/-- All entries below a directory, by their places from there on. -/
def listing (entries : Entries) : List (List String × Node) := (entriesOnto [] [] entries).reverse

mutual

/-- A directory whose path is too long to be read, by that path, at or below a branch with a given
    path. -/
def unreadable? (path : String) : Branch → Option String
  | .directory entries =>
    if path.utf8ByteSize > maxPathSize then some path else unreadableBelow? path entries
  | _ => none

/-- Such a directory below one with a given path. -/
def unreadableBelow? (path : String) : List (String × Branch) → Option String
  | [] => none
  | (name, branch) :: rest =>
    match unreadable? (Path.join path name) branch with
    | some path => some path
    | none => unreadableBelow? path rest

end

/-! ### Operations -/

/-- The contents of the file that a path leads to. -/
def readFile (tree : Tree) (path : String) : Answer (List UInt8) :=
  match tree.locate true path with
  | .ok (.entry _ (.file bytes)) =>
    if wantsDirectory path then .error .notDirectory else .ok bytes
  | .ok (.entry _ .directory) => .error .isDirectory
  | .ok (.entry _ (.link _)) => .error .tooManyLinks
  | .ok (.vacant _) => .error .notFound
  | .error cause => .error cause

/-- Does a path lead to a file? -/
def isFile (tree : Tree) (path : String) : Bool :=
  match tree.readFile path with
  | .ok _ => true
  | .error _ => false

/-- Does a path lead to a directory? -/
def isDirectory (tree : Tree) (path : String) : Bool :=
  match tree.locate true path with
  | .ok (.entry _ .directory) => true
  | _ => false

/-- The files below the directory that a path leads to. -/
def filesBelow (tree : Tree) (path : String) :
    Except (String × OsError) (List (List String)) :=
  match tree.locate true path with
  | .ok (.entry place .directory) =>
    let entries := tree.entriesAt ((tree.trail? place).getD [])
    match unreadableBelow? path entries with
    | some path => .error (path, .nameTooLong)
    | none =>
      .ok ((listing entries).filterMap fun (place, node) =>
        match node with
        | .file _ => some place
        | _ => none)
  | .ok (.entry _ _) => .error (path, .notDirectory)
  | .ok (.vacant _) => .error (path, .notFound)
  | .error cause => .error (path, cause)

/-- The tree with a new directory. -/
def makeDirectory (tree : Tree) (path : String) : Answer Tree :=
  match tree.locate false path with
  | .ok (.entry _ _) => .error .alreadyExists
  | .ok (.vacant place) => .ok (tree.put place .directory)
  | .error cause => .error cause

/-- The tree with a new file, which is empty. -/
def createNew (tree : Tree) (path : String) : Answer Tree :=
  match tree.locate false path with
  | .ok (.entry _ _) => .error .alreadyExists
  | .ok (.vacant place) =>
    if wantsDirectory path then .error .isDirectory else .ok (tree.put place (.file []))
  | .error cause => .error cause

/-- The tree with other contents in a file. -/
def fill (tree : Tree) (path : String) (bytes : List UInt8) : Answer Tree :=
  match tree.locate true path with
  | .ok (.entry place (.file _)) =>
    if wantsDirectory path then .error .notDirectory else .ok (tree.put place (.file bytes))
  | .ok (.entry _ .directory) => .error .isDirectory
  | .ok (.entry _ (.link _)) => .error .tooManyLinks
  | .ok (.vacant _) => .error .notFound
  | .error cause => .error cause

/-- The tree with a file at another path, in place of the file or link there. -/
def rename (tree : Tree) (source target : String) : Answer Tree :=
  match tree.locate false source with
  | .ok (.entry _ .directory) => .error .isDirectory
  | .ok (.entry place node) =>
    match tree.locate false target with
    | .ok (.entry _ .directory) => .error .isDirectory
    | .ok (.entry taken _) => .ok ((tree.erase place).put taken node)
    | .ok (.vacant free) =>
      if wantsDirectory target then .error .notDirectory
      else .ok ((tree.erase place).put free node)
    | .error cause => .error cause
  | .ok (.vacant _) => .error .notFound
  | .error cause => .error cause

/-- The tree without a file or link. -/
def removeFile (tree : Tree) (path : String) : Answer Tree :=
  match tree.locate false path with
  | .ok (.entry _ .directory) => .error .isDirectory
  | .ok (.entry place _) => .ok (tree.erase place)
  | .ok (.vacant _) => .error .notFound
  | .error cause => .error cause

/-- The path of the current directory. -/
def currentPath (tree : Tree) : Answer String :=
  if tree.find? tree.current = some .directory then
    .ok ("/" ++ String.intercalate "/" tree.current)
  else .error .notFound

/-- An operation that changes the tree or is refused and leaves it alone. -/
def change (operation : Tree → Answer Tree) : StateM Tree (Answer Unit) := fun tree =>
  match operation tree with
  | .ok tree => (.ok (), tree)
  | .error cause => (.error cause, tree)

instance : Host (StateM Tree) where
  currentDirectory := return (← get).currentPath
  isFile path := return (← get).isFile path
  isDirectory path := return (← get).isDirectory path
  readFile path := return (← get).readFile path
  filesBelow path := return (← get).filesBelow path
  makeDirectory path := change (·.makeDirectory path)
  createNew path := change (·.createNew path)
  fill path bytes := change (·.fill path bytes)
  rename source target := change (·.rename source target)
  removeFile path := change (·.removeFile path)
  scratchMark := return "0"
  milliseconds := return 0

end Tree

end ResourceMerge.Files

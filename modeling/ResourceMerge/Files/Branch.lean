/-! What stands in a file system from one place on: a file, a link, or a directory with all that is
    below it. A place is a list of names, and the view of a branch is what stands at each place;
    `nodeAt_within` and `nodeAt_within_outside` say what a change of one directory does to it. -/

namespace ResourceMerge.Files

/-- What stands at a place. -/
inductive Node where
  | file (bytes : List UInt8)
  | directory
  | link (target : String)
  deriving DecidableEq

/-- What stands at a place, with all that is below it. -/
inductive Branch where
  | file (bytes : List UInt8)
  | directory (entries : List (String × Branch))
  | link (target : String)

/-- The entries of a directory by name, with all that is below them. -/
abbrev Entries := List (String × Branch)

/-- A branch of one node; a directory is empty. -/
def Node.branch : Node → Branch
  | .file bytes => .file bytes
  | .directory => .directory []
  | .link target => .link target

namespace Branch

/-- What stands at the top of a branch. -/
def node : Branch → Node
  | .file bytes => .file bytes
  | .directory _ => .directory
  | .link target => .link target

/-- The branch at a place below. -/
def at? : List String → Branch → Option Branch
  | [], branch => some branch
  | name :: place, .directory entries => (entries.lookup name).bind (at? place)
  | _ :: _, _ => none

/-- What stands at a place below. -/
def nodeAt (place : List String) (branch : Branch) : Option Node := (branch.at? place).map node

/-- The branch with the entries of its top changed, if it is a directory. -/
def changed (change : Entries → Entries) : Branch → Branch
  | .directory entries => .directory (change entries)
  | branch => branch

end Branch

namespace Entries

/-- Entries without that of a name. -/
def without (name : String) (entries : Entries) : Entries :=
  entries.filter fun entry => entry.1 ≠ name

/-- Entries with a node under a name. -/
def withNode (name : String) (node : Node) (entries : Entries) : Entries :=
  without name entries ++ [(name, node.branch)]

/-- Entries where those of the directory at a place are changed. -/
def within (change : Entries → Entries) : List String → Entries → Entries
  | [], entries => change entries
  | name :: place, entries =>
    entries.map fun (other, branch) =>
      (other, if other = name then branch.changed (within change place) else branch)

theorem lookup_without (name : String) (entries : Entries) (other : String) :
    (without name entries).lookup other = if other = name then none else entries.lookup other := by
  induction entries with
  | nil => simp [without]
  | cons entry rest ih =>
    rw [without] at ih ⊢
    by_cases hk : entry.1 = name
    · rw [List.filter_cons_of_neg (by simpa using hk), ih]
      by_cases ho : other = name
      · simp [ho]
      · rw [if_neg ho, if_neg ho, List.lookup_cons, beq_false_of_ne (by rwa [hk])]
    · rw [List.filter_cons_of_pos (by simpa using hk), List.lookup_cons, List.lookup_cons, ih]
      by_cases ho : other = entry.1
      · subst ho; simp [hk]
      · rw [beq_false_of_ne ho]

theorem lookup_withNode (name : String) (node : Node) (entries : Entries) (other : String) :
    (withNode name node entries).lookup other =
      if other = name then some node.branch else entries.lookup other := by
  rw [withNode, List.lookup_append, lookup_without, List.lookup_cons, List.lookup_nil]
  by_cases ho : other = name
  · simp [ho]
  · simp [ho, beq_false_of_ne ho]

theorem lookup_map (name : String) (f : Branch → Branch) (entries : Entries) (other : String) :
    (entries.map fun (other, branch) => (other, if other = name then f branch else branch)).lookup
        other =
      if other = name then (entries.lookup name).map f else entries.lookup other := by
  induction entries with
  | nil => simp
  | cons entry rest ih =>
    rw [List.map_cons, List.lookup_cons, List.lookup_cons, List.lookup_cons, ih]
    by_cases ho : other = entry.1
    · subst ho
      by_cases hn : entry.1 = name
      · subst hn; simp
      · simp [hn]
    · by_cases hn : other = name
      · subst hn; simp [beq_false_of_ne ho]
      · simp [beq_false_of_ne ho, hn]

end Entries

namespace Branch

theorem at?_cons (name : String) (place : List String) (entries : Entries) :
    at? (name :: place) (.directory entries) = (entries.lookup name).bind (at? place) := rfl

theorem at?_append (directory rest : List String) (branch : Branch) :
    at? (directory ++ rest) branch = (at? directory branch).bind (at? rest) := by
  induction directory generalizing branch with
  | nil => rfl
  | cons name place ih =>
    cases branch with
    | directory entries =>
      rw [List.cons_append, at?_cons, at?_cons, funext ih, Option.bind_assoc]
    | file bytes => rfl
    | link target => rfl

theorem at?_eq_directory {place : List String} {branch : Branch}
    (h : branch.nodeAt place = some .directory) :
    ∃ entries, at? place branch = some (.directory entries) := by
  obtain ⟨found, hf, hn⟩ := Option.map_eq_some_iff.1 h
  cases found with
  | directory entries => exact ⟨entries, hf⟩
  | file bytes => simp [node] at hn
  | link target => simp [node] at hn

/-- A directory has the changed entries, and what is below them. -/
theorem at?_within (change : Entries → Entries) {directory : List String} {entries below : Entries}
    (h : at? directory (.directory entries) = some (.directory below)) (rest : List String) :
    at? (directory ++ rest) (.directory (Entries.within change directory entries)) =
      at? rest (.directory (change below)) := by
  induction directory generalizing entries with
  | nil =>
    obtain rfl : entries = below := by simpa [at?] using h
    rfl
  | cons name place ih =>
    obtain ⟨branch, found, h⟩ := Option.bind_eq_some_iff.1 h
    rw [List.cons_append, at?_cons, Entries.within, Entries.lookup_map, if_pos rfl, found]
    cases branch with
    | directory entries => exact ih h
    | file bytes => cases place <;> simp [at?] at h
    | link target => cases place <;> simp [at?] at h

/-- What is not at or below the changed directory stays as it is. -/
theorem nodeAt_within_outside (change : Entries → Entries) (directory : List String)
    (entries : Entries) {other : List String} (h : ¬ directory <+: other) :
    nodeAt other (.directory (Entries.within change directory entries)) =
      nodeAt other (.directory entries) := by
  induction directory generalizing entries other with
  | nil => exact absurd List.nil_prefix h
  | cons name place ih =>
    cases other with
    | nil => rfl
    | cons first other =>
      simp only [nodeAt, at?_cons, Entries.within, Entries.lookup_map]
      by_cases hf : first = name
      · subst hf
        have h : ¬ place <+: other := fun inside => h (by simpa using inside)
        cases hb : entries.lookup first with
        | none => simp
        | some branch =>
          cases branch with
          | directory entries => simpa [nodeAt, changed] using ih entries h
          | file bytes => simp [changed]
          | link target => simp [changed]
      · simp [hf]

end Branch

end ResourceMerge.Files

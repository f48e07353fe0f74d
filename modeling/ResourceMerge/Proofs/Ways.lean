import Mathlib.Data.List.Induction
import ResourceMerge.Files.Tree

/-! Where a path leads, told by what stands at each place. `Leads` is the way along components as a
    relation over places: it knows nothing of the entries that a walk carries along, so two trees
    are compared place by place. `locate_eq_ok` says that it is the way that is computed. -/

namespace ResourceMerge.Files.Tree

variable {tree after : Tree} {follow : Bool} {links : Nat} {trail : Trail} {bytes : List UInt8}
  {directory place rest way : List String} {name path target : String} {node : Node} {goal : End}

/-! ### Places -/

/-- Above an entry are directories. -/
theorem find?_above (h : tree.find? (place ++ rest) = some node) (hrest : rest ≠ []) :
    tree.find? place = some .directory := by
  rw [find?, Branch.nodeAt, Branch.at?_append] at h
  obtain ⟨branch, hbelow, -⟩ := Option.map_eq_some_iff.1 h
  obtain ⟨above, habove, hbelow⟩ := Option.bind_eq_some_iff.1 hbelow
  obtain ⟨first, rest, rfl⟩ := List.exists_cons_of_ne_nil hrest
  cases above with
  | directory entries => simp [find?, Branch.nodeAt, habove, Branch.node]
  | file bytes => simp [Branch.at?] at hbelow
  | link target => simp [Branch.at?] at hbelow

/-- Below an entry that is no directory there is nothing. -/
theorem find?_below (h : tree.find? place ≠ some .directory) (hrest : rest ≠ []) :
    tree.find? (place ++ rest) = none :=
  Option.eq_none_iff_forall_ne_some.2 fun _ found => h (find?_above found hrest)

theorem find?_nil : tree.find? [] = some .directory := rfl

/-- The directory that a directory belongs to; the root belongs to itself. -/
theorem find?_dropLast (h : tree.find? place = some .directory) :
    tree.find? place.dropLast = some .directory := by
  induction place using List.reverseRecOn with
  | nil => rfl
  | append_singleton place name _ =>
    rw [List.dropLast_concat]
    exact find?_above h (List.cons_ne_nil _ _)

/-- The directory that the target of a link starts from. -/
theorem find?_base (target : String) (h : tree.find? place = some .directory) :
    tree.find? (if Path.isAbsolute target then [] else place) = some .directory := by
  split
  · exact find?_nil
  · exact h

/-! ### Trails -/

/-- A trail that goes down a tree: each directory on it is an entry of the one before. -/
inductive Follows (tree : Tree) : Trail → Prop
  | root : Follows tree []
  | down {trail : Trail} {name : String} {entries : Entries} (h : Follows tree trail)
      (found : (tree.entriesAt trail).lookup name = some (.directory entries)) :
      Follows tree ((name, entries) :: trail)

theorem place_down (name : String) (entries : Entries) (trail : Trail) :
    Trail.place ((name, entries) :: trail) = trail.place ++ [name] := by
  simp [Trail.place]

theorem place_tail (trail : Trail) : Trail.place trail.tail = trail.place.dropLast := by
  cases trail <;> simp [Trail.place]

theorem Follows.tail (h : tree.Follows trail) : tree.Follows trail.tail := by
  cases h with
  | root => exact .root
  | down h _ => exact h

theorem Follows.at? (h : tree.Follows trail) :
    (Branch.directory tree.root).at? trail.place = some (.directory (tree.entriesAt trail)) := by
  induction h with
  | root => rfl
  | down h found ih =>
    rw [place_down, Branch.at?_append, ih, Option.bind_some, Branch.at?_cons, found]
    rfl

/-- What stands in the directory that a trail leads to. -/
theorem Follows.find? (h : tree.Follows trail) (name : String) :
    tree.find? (trail.place ++ [name]) =
      ((tree.entriesAt trail).lookup name).map Branch.node := by
  rw [Tree.find?, Branch.nodeAt, Branch.at?_append, h.at?, Option.bind_some, Branch.at?_cons]
  cases (tree.entriesAt trail).lookup name <;> rfl

theorem Follows.find?_place (h : tree.Follows trail) :
    tree.find? trail.place = some .directory := by
  rw [Tree.find?, Branch.nodeAt, h.at?]
  rfl

/-- A directory at a place is one that the trail can be gone on to. -/
theorem Follows.lookup_directory (h : tree.Follows trail)
    (found : tree.find? (trail.place ++ [name]) = some .directory) :
    ∃ entries, (tree.entriesAt trail).lookup name = some (.directory entries) := by
  rw [h.find? name] at found
  obtain ⟨branch, hbranch, hnode⟩ := Option.map_eq_some_iff.1 found
  cases branch with
  | directory entries => exact ⟨entries, hbranch⟩
  | file bytes => simp [Branch.node] at hnode
  | link target => simp [Branch.node] at hnode

/-- Anything else at a place is a node without entries. -/
theorem Follows.lookup_leaf (h : tree.Follows trail)
    (found : tree.find? (trail.place ++ [name]) = some node) (hleaf : node ≠ .directory) :
    (tree.entriesAt trail).lookup name = some node.branch := by
  rw [h.find? name] at found
  obtain ⟨branch, hbranch, rfl⟩ := Option.map_eq_some_iff.1 found
  rw [hbranch]
  cases branch with
  | directory entries => exact absurd rfl hleaf
  | file bytes => rfl
  | link target => rfl

theorem trail?_concat (place : List String) (name : String) :
    tree.trail? (place ++ [name]) = (tree.trail? place).bind fun trail =>
      match (tree.entriesAt trail).lookup name with
      | some (.directory entries) => some ((name, entries) :: trail)
      | _ => none := by
  rw [trail?, List.foldlM_append]
  refine congrArg (Option.bind _) (funext fun trail => ?_)
  rw [List.foldlM_cons]
  cases (tree.entriesAt trail).lookup name with
  | none => rfl
  | some branch => cases branch <;> rfl

/-- The trail to a place goes down the tree to it. -/
theorem trail?_follows (h : tree.trail? place = some trail) :
    tree.Follows trail ∧ trail.place = place := by
  induction place using List.reverseRecOn generalizing trail with
  | nil =>
    obtain rfl : [] = trail := by simpa [trail?] using h
    exact ⟨.root, rfl⟩
  | append_singleton place name ih =>
    rw [trail?_concat] at h
    obtain ⟨above, habove, hdown⟩ := Option.bind_eq_some_iff.1 h
    obtain ⟨hfollows, rfl⟩ := ih habove
    split at hdown
    next entries found =>
      obtain rfl := Option.some.inj hdown
      exact ⟨hfollows.down found, place_down name entries above⟩
    next => simp at hdown

/-- There is a trail to every directory. -/
theorem exists_trail (h : tree.find? place = some .directory) :
    ∃ trail, tree.trail? place = some trail := by
  induction place using List.reverseRecOn with
  | nil => exact ⟨[], rfl⟩
  | append_singleton place name ih =>
    obtain ⟨above, habove⟩ := ih (find?_above h (List.cons_ne_nil _ _))
    obtain ⟨hfollows, rfl⟩ := trail?_follows habove
    obtain ⟨entries, found⟩ := hfollows.lookup_directory h
    exact ⟨(name, entries) :: above, by rw [trail?_concat, habove, Option.bind_some, found]⟩

/-! ### Ways -/

/-- A component that can name an entry. -/
structure IsName (name : String) : Prop where
  not_dot : name ≠ "."
  not_up : name ≠ ".."
  short : name.utf8ByteSize ≤ 255

/-- Components lead from a directory to an end, over so many links at most. -/
inductive Leads (tree : Tree) (follow : Bool) : Nat → List String → List String → End → Prop
  | here {links : Nat} {place : List String} :
      Leads tree follow links place [] (.entry place .directory)
  | dot {links : Nat} {place rest : List String} {goal : End}
      (h : Leads tree follow links place rest goal) :
      Leads tree follow links place ("." :: rest) goal
  | up {links : Nat} {place rest : List String} {goal : End}
      (h : Leads tree follow links place.dropLast rest goal) :
      Leads tree follow links place (".." :: rest) goal
  | down {links : Nat} {place rest : List String} {name : String} {goal : End}
      (hname : IsName name) (found : tree.find? (place ++ [name]) = some .directory)
      (h : Leads tree follow links (place ++ [name]) rest goal) :
      Leads tree follow links place (name :: rest) goal
  | file {links : Nat} {place : List String} {name : String} {bytes : List UInt8}
      (hname : IsName name) (found : tree.find? (place ++ [name]) = some (.file bytes)) :
      Leads tree follow links place [name] (.entry (place ++ [name]) (.file bytes))
  | link {links : Nat} {place : List String} {name target : String}
      (hname : IsName name) (found : tree.find? (place ++ [name]) = some (.link target))
      (hfollow : follow = false) :
      Leads tree follow links place [name] (.entry (place ++ [name]) (.link target))
  | through {links : Nat} {place rest : List String} {name target : String} {goal : End}
      (hname : IsName name) (found : tree.find? (place ++ [name]) = some (.link target))
      (hfollow : rest = [] → follow = true)
      (h : Leads tree follow links (if Path.isAbsolute target then [] else place)
        (targetPieces target ++ rest) goal) :
      Leads tree follow (links + 1) place (name :: rest) goal
  | vacant {links : Nat} {place : List String} {name : String}
      (hname : IsName name) (found : tree.find? (place ++ [name]) = none) :
      Leads tree follow links place [name] (.vacant (place ++ [name]))

/-! ### Going along components -/

theorem walk_nil : tree.walk follow links trail [] = .ok (.entry trail.place .directory) := by
  rw [walk, stretch]

theorem walk_dot :
    tree.walk follow links trail ("." :: rest) = tree.walk follow links trail rest := by
  rw [walk, stretch, ← walk]

theorem walk_up :
    tree.walk follow links trail (".." :: rest) = tree.walk follow links trail.tail rest := by
  rw [walk, stretch, ← walk]

/-- A name is looked up in the directory that the way has come to. -/
theorem walk_name (hname : IsName name) :
    tree.walk follow links trail (name :: rest) =
      match (tree.entriesAt trail).lookup name with
      | none =>
        if rest.isEmpty then .ok (.vacant (trail.place ++ [name])) else .error .notFound
      | some (.directory entries) => tree.walk follow links ((name, entries) :: trail) rest
      | some (.file bytes) =>
        if rest.isEmpty then .ok (.entry (trail.place ++ [name]) (.file bytes))
        else .error .notDirectory
      | some (.link target) =>
        if rest.isEmpty && !follow then .ok (.entry (trail.place ++ [name]) (.link target))
        else
          match links with
          | 0 => .error .tooManyLinks
          | links + 1 =>
            tree.walk follow links (if Path.isAbsolute target then [] else trail)
              (targetPieces target ++ rest) := by
  rw [walk, stretch.eq_4 tree follow trail name rest hname.not_dot hname.not_up,
    if_neg (Nat.not_lt.2 hname.short)]
  cases (tree.entriesAt trail).lookup name with
  | none => cases rest <;> rfl
  | some branch =>
    cases branch with
    | directory entries => rw [← walk]
    | file bytes => cases rest <;> rfl
    | link target => cases rest <;> cases follow <;> rfl

/-- A component is a dot or two, or else a name unless it is too long to be looked up. -/
theorem isName_of_walk (hdot : name ≠ ".") (hup : name ≠ "..")
    (h : tree.walk follow links trail (name :: rest) = .ok goal) : IsName name := by
  refine ⟨hdot, hup, Nat.not_lt.1 fun hlong => ?_⟩
  rw [walk, stretch.eq_4 tree follow trail name rest hdot hup, if_pos hlong] at h
  simp at h

theorem place_base (target : String) (trail : Trail) :
    Trail.place (if Path.isAbsolute target then [] else trail) =
      if Path.isAbsolute target then [] else trail.place := by
  split <;> rfl

theorem Follows.base (target : String) (h : tree.Follows trail) :
    tree.Follows (if Path.isAbsolute target then [] else trail) := by
  split
  · exact .root
  · exact h

/-- What is found by going along components, they lead to. -/
theorem leads_of_walk (hfollows : tree.Follows trail)
    (h : tree.walk follow links trail way = .ok goal) :
    tree.Leads follow links trail.place way goal := by
  -- a link starts another way, over one link less; any other component leaves a shorter way
  induction links using Nat.strongRecOn generalizing trail way with
  | _ links ihlinks
  induction way generalizing trail with
  | nil =>
    rw [walk_nil] at h
    obtain rfl := Except.ok.inj h
    exact .here
  | cons name rest ihrest =>
    by_cases hdot : name = "."
    · subst hdot
      exact .dot (ihrest hfollows (walk_dot ▸ h))
    by_cases hup : name = ".."
    · subst hup
      exact .up (place_tail trail ▸ ihrest hfollows.tail (walk_up ▸ h))
    have hname := isName_of_walk hdot hup h
    rw [walk_name hname] at h
    have hfind := hfollows.find? name
    cases hlookup : (tree.entriesAt trail).lookup name with
    | none =>
      rw [hlookup] at h hfind
      cases rest with
      | nil =>
        obtain rfl := Except.ok.inj h
        exact .vacant hname hfind
      | cons _ _ => simp at h
    | some branch =>
      rw [hlookup] at h hfind
      cases branch with
      | directory entries =>
        have hbelow := ihrest (hfollows.down hlookup) h
        rw [place_down] at hbelow
        exact .down hname hfind hbelow
      | file bytes =>
        cases rest with
        | nil =>
          obtain rfl := Except.ok.inj h
          exact .file hname hfind
        | cons _ _ => simp at h
      | link target =>
        simp only at h
        split at h
        next hlast =>
          obtain ⟨hrest, hfollow⟩ : rest = [] ∧ follow = false := by simpa using hlast
          subst hrest
          obtain rfl := Except.ok.inj h
          exact .link hname hfind hfollow
        next hgoes =>
          have hfollow : rest = [] → follow = true := by simpa using hgoes
          cases links with
          | zero => simp at h
          | succ links =>
            have hbelow := ihlinks links (Nat.lt_succ_self links) (hfollows.base target) h
            rw [place_base] at hbelow
            exact .through hname hfind hfollow hbelow

/-- What components lead to is found by going along them. -/
theorem walk_of_leads (h : tree.Leads follow links place way goal) (hfollows : tree.Follows trail)
    (hplace : trail.place = place) : tree.walk follow links trail way = .ok goal := by
  induction h generalizing trail with
  | here => rw [walk_nil, hplace]
  | dot _ ih => rw [walk_dot, ih hfollows hplace]
  | up _ ih => rw [walk_up, ih hfollows.tail (by rw [place_tail, hplace])]
  | down hname found _ ih =>
    subst hplace
    obtain ⟨entries, hlookup⟩ := hfollows.lookup_directory found
    rw [walk_name hname, hlookup]
    exact ih (hfollows.down hlookup) (place_down _ entries trail)
  | file hname found =>
    subst hplace
    rw [walk_name hname, hfollows.lookup_leaf found (by simp)]
    rfl
  | link hname found hfollow =>
    subst hplace hfollow
    rw [walk_name hname, hfollows.lookup_leaf found (by simp)]
    rfl
  | @through links place rest name target goal hname found hfollow _ ih =>
    subst hplace
    have hgoes : (rest.isEmpty && !follow) = false := by
      cases rest <;> simp_all
    rw [walk_name hname, hfollows.lookup_leaf found (by simp)]
    simp only [Node.branch, hgoes]
    exact ih (hfollows.base target) (place_base target trail)
  | vacant hname found =>
    subst hplace
    rw [hfollows.find? _, Option.map_eq_none_iff] at found
    rw [walk_name hname, found]
    rfl

/-! ### Ends -/

/-- What an end says of its place. -/
def Stands (tree : Tree) : End → Prop
  | .entry place node => tree.find? place = some node
  | .vacant place => tree.find? place = none ∧ tree.find? place.dropLast = some .directory

/-- An end is as the way says. -/
theorem Leads.stands (h : tree.Leads follow links place way goal)
    (hplace : tree.find? place = some .directory) : tree.Stands goal := by
  induction h with
  | here => exact hplace
  | dot _ ih => exact ih hplace
  | up _ ih => exact ih (find?_dropLast hplace)
  | down _ found _ ih => exact ih found
  | file _ found => exact found
  | link _ found => exact found
  | through _ _ _ _ ih => exact ih (find?_base _ hplace)
  | vacant _ found => exact ⟨found, by rwa [List.dropLast_concat]⟩

/-! ### Paths -/

/-- A path can be looked up, from a directory on. -/
structure StartsAt (tree : Tree) (path : String) (place : List String) : Prop where
  no_nul : path.toList.contains '\x00' = false
  nonempty : path.isEmpty = false
  short : path.utf8ByteSize ≤ maxPathSize
  place_eq : place = if Path.isAbsolute path then [] else tree.current
  found : tree.find? place = some .directory

/-- A path leads to an end. -/
def LeadsTo (tree : Tree) (follow : Bool) (path : String) (goal : End) : Prop :=
  ∃ place, tree.StartsAt path place ∧ tree.Leads follow 40 place (Path.pieces path) goal

theorem start?_follows (h : tree.start? path = some trail) :
    tree.Follows trail ∧ trail.place = if Path.isAbsolute path then [] else tree.current := by
  rw [start?] at h
  split at h
  next habsolute =>
    obtain rfl := Option.some.inj h
    exact ⟨.root, by rw [if_pos habsolute]; rfl⟩
  next hrelative =>
    rw [if_neg hrelative]
    exact trail?_follows h

theorem StartsAt.exists_start (h : tree.StartsAt path place) :
    ∃ trail, tree.start? path = some trail := by
  have hplace := h.place_eq
  rw [start?]
  split at hplace
  next habsolute => exact ⟨[], if_pos habsolute⟩
  next hrelative =>
    rw [if_neg hrelative]
    exact exists_trail (hplace ▸ h.found)

/-- The end of a path is what the path leads to. -/
theorem locate_eq_ok : tree.locate follow path = .ok goal ↔ tree.LeadsTo follow path goal := by
  constructor
  · intro h
    rw [locate] at h
    split_ifs at h with hnul hempty hlong
    split at h
    next trail hstart =>
      obtain ⟨hfollows, hplace⟩ := start?_follows hstart
      exact ⟨trail.place, ⟨eq_false_of_ne_true hnul, eq_false_of_ne_true hempty,
        Nat.not_lt.1 hlong, hplace, hfollows.find?_place⟩, leads_of_walk hfollows h⟩
    next => simp at h
  · rintro ⟨place, hstarts, hleads⟩
    obtain ⟨trail, hstart⟩ := hstarts.exists_start
    obtain ⟨hfollows, hplace⟩ := start?_follows hstart
    rw [← hstarts.place_eq] at hplace
    rw [locate, if_neg (ne_true_of_eq_false hstarts.no_nul),
      if_neg (ne_true_of_eq_false hstarts.nonempty), if_neg (Nat.not_lt.2 hstarts.short), hstart]
    exact walk_of_leads hleads hfollows hplace

/-- A path leads to one end only. -/
theorem LeadsTo.unique {other : End} (h : tree.LeadsTo follow path goal)
    (hother : tree.LeadsTo follow path other) : goal = other := by
  rw [← locate_eq_ok] at h hother
  exact Except.ok.inj (h.symm.trans hother)

theorem LeadsTo.stands (h : tree.LeadsTo follow path goal) : tree.Stands goal := by
  obtain ⟨place, hstarts, hleads⟩ := h
  exact hleads.stands hstarts.found

end ResourceMerge.Files.Tree

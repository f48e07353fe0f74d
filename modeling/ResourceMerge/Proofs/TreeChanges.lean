import ResourceMerge.Proofs.Ways

/-! What the operations of a file system do to a tree, told by what stands at each place, and what
    becomes of a way where the tree is changed under it: a way to an entry stays as it is where more
    comes into the tree, and a way to a vacant place leads to what is put there. Together they say
    what a file is that is created, filled and renamed or removed by the same path. -/

namespace ResourceMerge.Files.Tree

variable {tree after : Tree} {follow : Bool} {links : Nat} {bytes : List UInt8}
  {directory place rest way : List String} {name path source target : String} {node : Node}
  {goal : End}

/-! ### Ways in a changed tree -/

/-- A way to an entry stays where all entries stay. -/
theorem Leads.extend (h : tree.Leads follow links place way (.entry directory node))
    (hkeep : ∀ place node, tree.find? place = some node → after.find? place = some node) :
    after.Leads follow links place way (.entry directory node) := by
  generalize hgoal : End.entry directory node = goal at h ⊢
  induction h with
  | here => exact .here
  | dot _ ih => exact .dot (ih hgoal)
  | up _ ih => exact .up (ih hgoal)
  | down hname found _ ih => exact .down hname (hkeep _ _ found) (ih hgoal)
  | file hname found => exact .file hname (hkeep _ _ found)
  | link hname found hfollow => exact .link hname (hkeep _ _ found) hfollow
  | through hname found hfollow _ ih => exact .through hname (hkeep _ _ found) hfollow (ih hgoal)
  | vacant hname found => cases hgoal

/-- One tree is another one but for a node at a place. -/
structure SetAt (tree : Tree) (place : List String) (node : Node) (after : Tree) : Prop where
  current : after.current = tree.current
  find? : ∀ other,
    after.find? other = if other = place then some node else tree.find? other

theorem SetAt.here (h : tree.SetAt place node after) : after.find? place = some node := by
  rw [h.find?, if_pos rfl]

theorem SetAt.elsewhere (h : tree.SetAt place node after) {other : List String}
    (hother : other ≠ place) : after.find? other = tree.find? other := by
  rw [h.find?, if_neg hother]

/-- No directory or link is at a place where a path leads to a file, or to where one could be; all
    of them stay where something is set there. -/
theorem SetAt.keeps (h : tree.SetAt place node after) (hstands : tree.Stands goal)
    (hgoal : goal = .vacant place ∨ ∃ bytes, goal = .entry place (.file bytes))
    {other : List String} {n : Node} (found : tree.find? other = some n)
    (hn : ∀ bytes, n ≠ .file bytes) : after.find? other = some n := by
  rw [h.elsewhere, found]
  rintro rfl
  obtain rfl | ⟨bytes, rfl⟩ := hgoal
  · exact absurd (found.symm.trans hstands.1) (by simp)
  · exact hn bytes (Option.some.inj (found.symm.trans hstands))

/-- What is not the node that was set was there before. -/
theorem SetAt.kept (h : tree.SetAt place node after) {other : List String} {n : Node}
    (found : after.find? other = some n) (hn : n ≠ node) : tree.find? other = some n := by
  rw [← h.elsewhere, found]
  rintro rfl
  exact hn (Option.some.inj (found.symm.trans h.here))

/-- A name leads to what has it, a link apart. -/
theorem Leads.last (hname : IsName name) (found : tree.find? (place ++ [name]) = some node)
    (hnode : ∀ target, node ≠ .link target) :
    tree.Leads follow links place [name] (.entry (place ++ [name]) node) := by
  cases node with
  | file bytes => exact .file hname found
  | directory => exact .down hname found .here
  | link target => exact absurd rfl (hnode target)

/-- A way to a file, or to where one could be, leads to what is set there, a link apart. -/
theorem Leads.set (h : tree.Leads false links directory way goal)
    (hdirectory : tree.find? directory = some .directory)
    (hgoal : goal = .vacant place ∨ ∃ bytes, goal = .entry place (.file bytes))
    (hset : tree.SetAt place node after) (hnode : ∀ target, node ≠ .link target) :
    after.Leads follow links directory way (.entry place node) := by
  have hstands := h.stands hdirectory
  induction h with
  | here => simp at hgoal
  | dot _ ih => exact .dot (ih hdirectory hgoal hstands)
  | up _ ih => exact .up (ih (find?_dropLast hdirectory) hgoal hstands)
  | down hname found _ ih =>
    exact .down hname (hset.keeps hstands hgoal found (by simp)) (ih found hgoal hstands)
  | file hname found =>
    obtain rfl : _ = place := by simpa using hgoal
    exact .last hname hset.here hnode
  | link hname found hfollow => simp at hgoal
  | through hname found hfollow _ ih =>
    -- links at the end were not followed, so this one is not at the end
    exact .through hname (hset.keeps hstands hgoal found (by simp))
      (fun hrest => absurd (hfollow hrest) (by simp)) (ih (find?_base _ hdirectory) hgoal hstands)
  | vacant hname found =>
    obtain rfl : _ = place := by simpa using hgoal
    exact .last hname hset.here hnode

/-- A way where a file was set at a vacant place is one that was there before, unless it leads to
    this file. -/
theorem Leads.unset (h : after.Leads follow links directory way goal)
    (hset : tree.SetAt place (.file bytes) after) (hfree : tree.find? place = none) :
    tree.Leads follow links directory way goal ∨
      goal = .entry place (.file bytes) ∧
        tree.Leads follow links directory way (.vacant place) := by
  induction h with
  | here => exact .inl .here
  | dot _ ih => exact ih.imp .dot (And.imp_right .dot)
  | up _ ih => exact ih.imp .up (And.imp_right .up)
  | down hname found _ ih =>
    have found := hset.kept found (by simp)
    exact ih.imp (.down hname found) (And.imp_right (.down hname found))
  | @file _ above name _ hname found =>
    by_cases hplace : above ++ [name] = place
    · subst hplace
      rw [Option.some.inj (found.symm.trans hset.here)]
      exact .inr ⟨rfl, .vacant hname hfree⟩
    · rw [hset.elsewhere hplace] at found
      exact .inl (.file hname found)
  | link hname found hfollow => exact .inl (.link hname (hset.kept found (by simp)) hfollow)
  | through hname found hfollow _ ih =>
    have found := hset.kept found (by simp)
    exact ih.imp (.through hname found hfollow) (And.imp_right (.through hname found hfollow))
  | @vacant _ above name hname found =>
    have hplace : above ++ [name] ≠ place := by
      rintro rfl
      exact absurd (found.symm.trans hset.here) (by simp)
    rw [hset.elsewhere hplace] at found
    exact .inl (.vacant hname found)

theorem StartsAt.change (h : tree.StartsAt path place) (hcurrent : after.current = tree.current)
    (hkeep : ∀ place, tree.find? place = some .directory → after.find? place = some .directory) :
    after.StartsAt path place :=
  ⟨h.no_nul, h.nonempty, h.short, by rw [h.place_eq, hcurrent], hkeep place h.found⟩

theorem LeadsTo.extend (h : tree.LeadsTo follow path (.entry place node))
    (hcurrent : after.current = tree.current)
    (hkeep : ∀ place node, tree.find? place = some node → after.find? place = some node) :
    after.LeadsTo follow path (.entry place node) := by
  obtain ⟨directory, hstarts, hleads⟩ := h
  exact ⟨directory, hstarts.change hcurrent fun place => hkeep place _, hleads.extend hkeep⟩

theorem LeadsTo.set (h : tree.LeadsTo false path goal)
    (hgoal : goal = .vacant place ∨ ∃ bytes, goal = .entry place (.file bytes))
    (hset : tree.SetAt place node after) (hnode : ∀ target, node ≠ .link target) :
    after.LeadsTo follow path (.entry place node) := by
  have hstands := h.stands
  obtain ⟨directory, hstarts, hleads⟩ := h
  exact ⟨directory,
    hstarts.change hset.current fun _ found => hset.keeps hstands hgoal found (by simp),
    hleads.set hstarts.found hgoal hset hnode⟩

theorem LeadsTo.unset (h : after.LeadsTo follow path goal)
    (hset : tree.SetAt place (.file bytes) after) (hfree : tree.find? place = none) :
    tree.LeadsTo follow path goal ∨
      goal = .entry place (.file bytes) ∧ tree.LeadsTo follow path (.vacant place) := by
  obtain ⟨directory, hstarts, hleads⟩ := h
  have hbefore : tree.StartsAt path directory :=
    hstarts.change hset.current.symm fun _ found => hset.kept found (by simp)
  exact (hleads.unset hset hfree).imp (fun h => ⟨directory, hbefore, h⟩)
    (And.imp_right fun h => ⟨directory, hbefore, h⟩)

/-! ### Places for files -/

/-- A place that takes a file: it is in a directory and no directory itself. -/
structure Takes (tree : Tree) (place : List String) : Prop where
  above : tree.find? place.dropLast = some .directory
  leaf : tree.find? place ≠ some .directory

/-- The root is a directory. -/
theorem ne_nil_of_leaf (h : tree.find? place ≠ some .directory) : place ≠ [] := by
  rintro rfl
  exact h find?_nil

theorem Takes.eq_concat (h : tree.Takes place) : ∃ name, place = place.dropLast ++ [name] :=
  ⟨place.getLast (ne_nil_of_leaf h.leaf), (List.dropLast_concat_getLast _).symm⟩

theorem edit_current (change : String → Entries → Entries) :
    (tree.edit change place).current = tree.current := by
  rw [edit]
  split <;> rfl

/-- What is not the place itself is not felt by a change there. -/
theorem Takes.outside (h : tree.Takes place) {other : List String} (hother : other ≠ place) :
    (if place.isPrefixOf other then none else tree.find? other) = tree.find? other := by
  split
  next hprefix =>
    obtain ⟨rest, rfl⟩ := List.isPrefixOf_iff_prefix.1 hprefix
    exact (find?_below h.leaf fun hrest => hother (by rw [hrest, List.append_nil])).symm
  next => rfl

/-- A node that is put at such a place is all that is new. -/
theorem Takes.put (h : tree.Takes place) (node : Node) :
    tree.SetAt place node (tree.put place node) := by
  refine ⟨edit_current _, fun other => ?_⟩
  obtain ⟨name, hplace⟩ := h.eq_concat
  have hput := tree.find?_put name node h.above other
  rw [← hplace] at hput
  rw [hput]
  split
  · rfl
  next hother => exact h.outside hother

/-- What is erased at such a place is all that is gone. -/
theorem Takes.erase (h : tree.Takes place) (other : List String) :
    (tree.erase place).find? other = if other = place then none else tree.find? other := by
  obtain ⟨name, hplace⟩ := h.eq_concat
  have herase := tree.find?_erase name h.above other
  rw [← hplace] at herase
  rw [herase]
  by_cases hother : other = place
  · rw [if_pos hother, hother, if_pos (List.isPrefixOf_iff_prefix.2 List.prefix_rfl)]
  · rw [if_neg hother, h.outside hother]

/-- A path leads to a place for a file: nothing is there, or a file or a link. -/
def OpensAt (tree : Tree) (path : String) (place : List String) : Prop :=
  tree.locate false path = .ok (.vacant place) ∨
    ∃ node, node ≠ .directory ∧ tree.locate false path = .ok (.entry place node)

/-- Where a file or a link is, a file can be. -/
theorem takes_of_entry (found : tree.find? place = some node) (hnode : node ≠ .directory) :
    tree.Takes place := by
  have hleaf : tree.find? place ≠ some .directory := by simpa [found] using hnode
  rw [← List.dropLast_concat_getLast (ne_nil_of_leaf hleaf)] at found
  exact ⟨find?_above found (List.cons_ne_nil _ _), hleaf⟩

theorem OpensAt.takes (h : tree.OpensAt path place) : tree.Takes place := by
  obtain h | ⟨node, hnode, h⟩ := h
  · obtain ⟨hfree, habove⟩ := (locate_eq_ok.1 h).stands
    exact ⟨habove, by simp [hfree]⟩
  · exact takes_of_entry (locate_eq_ok.1 h).stands hnode

/-! ### Operations -/

/-- A new directory is at a place that was vacant. -/
theorem makeDirectory_setAt (h : tree.makeDirectory path = .ok after) :
    ∃ place, tree.LeadsTo false path (.vacant place) ∧ tree.SetAt place .directory after := by
  rw [makeDirectory] at h
  split at h
  · simp at h
  next place hlocate =>
    obtain rfl := Except.ok.inj h
    exact ⟨place, locate_eq_ok.1 hlocate, OpensAt.takes (.inl hlocate) |>.put _⟩
  · simp at h

/-- A new file is at a place that was vacant, and it is empty. -/
theorem createNew_setAt (h : tree.createNew path = .ok after) :
    ∃ place, tree.LeadsTo false path (.vacant place) ∧ tree.SetAt place (.file []) after := by
  rw [createNew] at h
  split at h
  · simp at h
  next place hlocate =>
    split at h
    · simp at h
    obtain rfl := Except.ok.inj h
    exact ⟨place, locate_eq_ok.1 hlocate, OpensAt.takes (.inl hlocate) |>.put _⟩
  · simp at h

/-- A file that is filled stays where it is. -/
theorem fill_setAt (h : tree.fill path bytes = .ok after) :
    ∃ place old, tree.LeadsTo true path (.entry place (.file old)) ∧
      tree.SetAt place (.file bytes) after := by
  rw [fill] at h
  split at h
  next place old hlocate =>
    have hleads := locate_eq_ok.1 hlocate
    split at h
    · simp at h
    obtain rfl := Except.ok.inj h
    exact ⟨place, old, hleads, (takes_of_entry hleads.stands (by simp)).put _⟩
  all_goals simp at h

/-- A file takes another place where it leaves its own. -/
theorem Takes.erased {taken : List String} (h : tree.Takes place) (htaken : tree.Takes taken) :
    (tree.erase place).Takes taken := by
  have habove := htaken.above
  have hapart : taken.dropLast ≠ place := by
    rintro rfl
    exact h.leaf habove
  constructor
  · rw [h.erase, if_neg hapart, habove]
  · rw [h.erase]
    split
    · simp
    · exact htaken.leaf

/-- A file is renamed to where its new path leads. -/
theorem rename_eq_ok (h : tree.rename source target = .ok after)
    (hsource : tree.LeadsTo false source (.entry place (.file bytes))) :
    ∃ taken, tree.OpensAt target taken ∧
      after = (tree.erase place).put taken (.file bytes) := by
  rw [rename, locate_eq_ok.2 hsource] at h
  simp only at h
  split at h
  · simp at h
  next taken node hnode hlocate =>
    exact ⟨taken, .inr ⟨node, hnode, hlocate⟩, (Except.ok.inj h).symm⟩
  next free hlocate =>
    split at h
    · simp at h
    exact ⟨free, .inl hlocate, (Except.ok.inj h).symm⟩
  · simp at h

/-- A file that is renamed leaves its place for another one, and nothing else changes. -/
theorem rename_find? (h : tree.rename source target = .ok after)
    (hsource : tree.LeadsTo false source (.entry place (.file bytes))) :
    ∃ taken, tree.OpensAt target taken ∧ after.current = tree.current ∧
      ∀ other, after.find? other =
        if other = taken then some (.file bytes)
        else if other = place then none else tree.find? other := by
  obtain ⟨taken, hopens, rfl⟩ := rename_eq_ok h hsource
  have hplace : tree.Takes place := takes_of_entry hsource.stands (by simp)
  have hput := (hplace.erased hopens.takes).put (.file bytes)
  refine ⟨taken, hopens, hput.current.trans (edit_current _), fun other => ?_⟩
  rw [hput.find?, hplace.erase]

/-- A file can be removed by its path. -/
theorem removeFile_eq_ok (h : tree.LeadsTo false path (.entry place (.file bytes))) :
    tree.removeFile path = .ok (tree.erase place) := by
  rw [removeFile, locate_eq_ok.2 h]

end ResourceMerge.Files.Tree

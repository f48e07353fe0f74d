import ResourceMerge.Proofs.SingleSteps
import ResourceMerge.Proofs.TreeChanges

/-! How a file comes to its path, and the directories of the path before it. A scratch file bridges
    the steps in between. As long as it is there, the tree is otherwise as it was before
    (`HasScratch`), so that its removal undoes everything and its renaming is all that is seen;
    `replaceFile_outcome` says so for every file system whose operations are single steps. -/

namespace ResourceMerge.Files

namespace Tree

variable {before tree after ready : Tree} {paths : List String} {path scratch : String}
  {place : List String} {bytes written : List UInt8} {node : Node}

/-! ### Missing directories -/

/-- The second tree is the first with more directories, each at the end of one of the paths, where
    nothing was before. -/
structure AddsDirectories (paths : List String) (before after : Tree) : Prop where
  current : after.current = before.current
  find? : ∀ place, after.find? place = before.find? place ∨
    before.find? place = none ∧ after.find? place = some .directory ∧
      ∃ path ∈ paths, after.locate true path = .ok (.entry place .directory)

theorem AddsDirectories.refl (paths : List String) (tree : Tree) :
    AddsDirectories paths tree tree :=
  ⟨rfl, fun _ => .inl rfl⟩

theorem AddsDirectories.keeps (h : AddsDirectories paths before after)
    (found : before.find? place = some node) : after.find? place = some node := by
  obtain hsame | ⟨hnone, -⟩ := h.find? place
  · rw [hsame, found]
  · rw [hnone] at found
    cases found

theorem AddsDirectories.trans (h : AddsDirectories paths before tree)
    (hafter : AddsDirectories paths tree after) : AddsDirectories paths before after := by
  refine ⟨hafter.current.trans h.current, fun place => ?_⟩
  obtain hsame | ⟨hnone, hnew, hpath⟩ := hafter.find? place
  · obtain hsame' | ⟨hnone, hnew, path, hmem, hlocate⟩ := h.find? place
    · exact .inl (hsame.trans hsame')
    · have hleads := (locate_eq_ok.1 hlocate).extend hafter.current fun _ _ => hafter.keeps
      exact .inr ⟨hnone, hsame.trans hnew, path, hmem, locate_eq_ok.2 hleads⟩
  · obtain hsame' | ⟨-, hnew', -⟩ := h.find? place
    · exact .inr ⟨hsame'.symm.trans hnone, hnew, hpath⟩
    · rw [hnew'] at hnone
      cases hnone

theorem AddsDirectories.mono {more : List String} (h : AddsDirectories paths before after)
    (hpaths : paths ⊆ more) : AddsDirectories more before after :=
  ⟨h.current, fun place => (h.find? place).imp_right fun ⟨hnone, hnew, path, hmem, hlocate⟩ =>
    ⟨hnone, hnew, path, hpaths hmem, hlocate⟩⟩

/-- No file is created, changed or removed. -/
theorem AddsDirectories.same_files (h : AddsDirectories paths before after) (place : List String)
    (bytes : List UInt8) :
    after.find? place = some (.file bytes) ↔ before.find? place = some (.file bytes) := by
  obtain hsame | ⟨hnone, hnew, -⟩ := h.find? place
  · rw [hsame]
  · simp [hnone, hnew]

/-- A new directory is at the end of its path. -/
theorem addsDirectories_makeDirectory (h : tree.makeDirectory path = .ok after)
    (hpath : path ∈ paths) : AddsDirectories paths tree after := by
  obtain ⟨place, hleads, hset⟩ := makeDirectory_setAt h
  refine ⟨hset.current, fun other => ?_⟩
  by_cases hother : other = place
  · subst hother
    have hafter : after.LeadsTo true path (.entry other .directory) :=
      hleads.set (.inl rfl) hset (by simp)
    exact .inr ⟨hleads.stands.1, hset.here, path, hpath, locate_eq_ok.2 hafter⟩
  · exact .inl (hset.elsewhere hother)

/-! ### Scratch files -/

/-- A scratch file is at a place that was vacant, and but for it the tree is as it was before. -/
structure HasScratch (before : Tree) (scratch : String) (place : List String)
    (written : List UInt8) (tree : Tree) : Prop where
  vacant : before.LeadsTo false scratch (.vacant place)
  set : before.SetAt place (.file written) tree

theorem HasScratch.leads {follow : Bool} (h : HasScratch before scratch place written tree) :
    tree.LeadsTo follow scratch (.entry place (.file written)) :=
  h.vacant.set (.inl rfl) h.set (by simp)

theorem exists_hasScratch (h : tree.createNew scratch = .ok after) :
    ∃ place, HasScratch tree scratch place [] after := by
  obtain ⟨place, hvacant, hset⟩ := createNew_setAt h
  exact ⟨place, hvacant, hset⟩

/-- A scratch file that is filled stays the same file. -/
theorem HasScratch.fill (h : HasScratch before scratch place written tree)
    (hfill : tree.fill scratch bytes = .ok after) :
    HasScratch before scratch place bytes after := by
  obtain ⟨other, old, hleads, hset⟩ := fill_setAt hfill
  obtain ⟨rfl, -⟩ : place = other ∧ Node.file written = .file old := by
    simpa using h.leads.unique hleads
  refine ⟨h.vacant, hset.current.trans h.set.current, fun other => ?_⟩
  rw [hset.find?, h.set.find?]
  split <;> rfl

/-- Without its scratch file a tree is as it was before. -/
theorem HasScratch.remove (h : HasScratch before scratch place written tree) :
    ∃ after, tree.removeFile scratch = .ok after ∧
      ∀ other, after.find? other = before.find? other := by
  refine ⟨_, removeFile_eq_ok h.leads, fun other => ?_⟩
  rw [(takes_of_entry h.set.here (by simp)).erase]
  split
  next hother => rw [hother, h.vacant.stands.1]
  next hother => exact h.set.elsewhere hother

/-- What a path opens beside a scratch file, it opened before. -/
theorem HasScratch.opensAt (h : HasScratch before scratch place written tree)
    {taken : List String} (hopens : tree.OpensAt path taken) : before.OpensAt path taken := by
  have hfree := h.vacant.stands.1
  obtain hlocate | ⟨node, hnode, hlocate⟩ := hopens
  · obtain hleads | ⟨hgoal, -⟩ := (locate_eq_ok.1 hlocate).unset h.set hfree
    · exact .inl (locate_eq_ok.2 hleads)
    · cases hgoal
  · obtain hleads | ⟨hgoal, hvacant⟩ := (locate_eq_ok.1 hlocate).unset h.set hfree
    · exact .inr ⟨node, hnode, locate_eq_ok.2 hleads⟩
    · cases hgoal
      exact .inl (locate_eq_ok.2 hvacant)

/-- A scratch file that is renamed is all that is new. -/
theorem HasScratch.rename (h : HasScratch before scratch place written tree)
    (hrename : tree.rename scratch path = .ok after) :
    ∃ taken, before.OpensAt path taken ∧ before.SetAt taken (.file written) after := by
  obtain ⟨taken, hopens, hcurrent, hfind⟩ := rename_find? hrename h.leads
  refine ⟨taken, h.opensAt hopens, hcurrent.trans h.set.current, fun other => ?_⟩
  rw [hfind, h.set.find?]
  split
  · rfl
  · split
    next hother => rw [hother, h.vacant.stands.1]
    next => rfl

end Tree

/-! ### Files in a file system -/

variable {σ : Type} {tree : σ → Tree} [Host (StateM σ)]

/-- To ask for a directory after a refusal leaves the tree as it is. -/
theorem isDirectory_keeps (hsteps : SingleSteps tree) (path : String) (refusal : OsError) :
    Keeps tree (do if ← Host.isDirectory path then return Except.ok () else return .error refusal :
      StateM σ (Answer Unit)) := by
  intro s
  rw [run_bind]
  split <;> exact hsteps.isDirectory path s

theorem ensureDirectory_adds (hsteps : SingleSteps tree) {paths : List String} {path : String}
    (hpath : path ∈ paths) (s : σ) :
    Tree.AddsDirectories paths (tree s) (tree ((ensureDirectory path : StateM σ _).run s).2) := by
  rw [ensureDirectory, run_bind]
  obtain ⟨⟨cause, hrefused⟩, hsame⟩ | ⟨hdone, hmade⟩ := hsteps.makeDirectory path s
  · simp only [hrefused]
    rw [isDirectory_keeps hsteps path cause, hsame]
    exact .refl _ _
  · rw [hdone]
    exact Tree.addsDirectories_makeDirectory hmade hpath

/-- Whether or not all directories could be made, no more than directories on their paths are
    new. -/
theorem makeFirst_adds (hsteps : SingleSteps tree) : ∀ (paths : List String) (s : σ),
    Tree.AddsDirectories paths (tree s) (tree ((makeFirst paths : StateM σ _).run s).2)
  | [], s => .refl _ _
  | path :: parents, s => by
    rw [makeFirst]
    split
    · exact .refl _ _
    rw [run_bind]
    obtain ⟨⟨cause, hrefused⟩, hsame⟩ | ⟨hdone, hmade⟩ := hsteps.makeDirectory path s
    · simp only [hrefused]
      split
      next heq => cases heq
      next =>
        have hparents := (makeFirst_adds hsteps parents
          ((Host.makeDirectory path : StateM σ _).run s).2).mono (List.subset_cons_self path _)
        rw [hsame] at hparents
        rw [run_bind]
        split
        · exact hparents.trans (ensureDirectory_adds hsteps List.mem_cons_self _)
        · exact hparents
      next refusal _ _ =>
        rw [isDirectory_keeps hsteps path refusal, hsame]
        exact .refl _ _
    · rw [hdone]
      exact Tree.addsDirectories_makeDirectory hmade List.mem_cons_self

/-- A scratch file is created at its path, or the tree is as it was. -/
theorem createScratch_does (hsteps : SingleSteps tree) (path mark : String) :
    ∀ (attempts attempt : Nat) (s : σ),
      let outcome := (createScratch path mark attempt attempts : StateM σ _).run s
      (∃ cause, outcome.1 = .error cause) ∧ tree outcome.2 = tree s ∨
        ∃ scratch, outcome.1 = .ok scratch ∧
          (tree s).createNew scratch = .ok (tree outcome.2)
  | 0, _, s => .inl ⟨⟨_, rfl⟩, rfl⟩
  | attempts + 1, attempt, s => by
    rw [createScratch, run_bind]
    obtain ⟨⟨cause, hrefused⟩, hsame⟩ | ⟨hdone, hmade⟩ :=
      hsteps.createNew (scratchPath path mark attempt) s
    · simp only [hrefused]
      split
      next heq => cases heq
      next =>
        have hnext := createScratch_does hsteps path mark attempts (attempt + 1)
          ((Host.createNew (scratchPath path mark attempt) : StateM σ _).run s).2
        rwa [hsame] at hnext
      next refusal _ _ => exact .inl ⟨⟨refusal, rfl⟩, hsame⟩
    · rw [hdone]
      exact .inr ⟨_, rfl, hmade⟩

/-- A scratch file takes the path with all its contents, or stays where it is. -/
theorem publish_outcome (hsteps : SingleSteps tree) {before : Tree} {scratch : String}
    {place : List String} {written : List UInt8} (path : String) (bytes : List UInt8) (s : σ)
    (h : before.HasScratch scratch place written (tree s)) :
    let outcome := (publish scratch path bytes : StateM σ _).run s
    (∃ cause, outcome.1 = .error cause) ∧
        (∃ written, before.HasScratch scratch place written (tree outcome.2)) ∨
      outcome.1 = .ok () ∧
        ∃ taken, before.OpensAt path taken ∧ before.SetAt taken (.file bytes) (tree outcome.2) := by
  rw [publish, run_bind]
  obtain ⟨⟨cause, hrefused⟩, hleft⟩ | ⟨hdone, hfilled⟩ := hsteps.fill scratch bytes s
  · simp only [hrefused]
    refine .inl ⟨⟨cause, rfl⟩, ?_⟩
    obtain hsame | ⟨part, hfilled⟩ := hleft
    · exact ⟨written, hsame ▸ h⟩
    · exact ⟨part, h.fill hfilled⟩
  · simp only [hdone]
    have hscratch := h.fill hfilled
    obtain ⟨hrefused, hsame⟩ | ⟨hdone, hrenamed⟩ :=
      hsteps.rename scratch path ((Host.fill scratch bytes : StateM σ _).run s).2
    · exact .inl ⟨hrefused, bytes, hsame ▸ hscratch⟩
    · exact .inr ⟨hdone, hscratch.rename hrenamed⟩

/-- A path gets its file as a whole, and nothing else changes; or nothing at all does. -/
theorem replaceFile_outcome (hsteps : SingleSteps tree) (path : String) (bytes : List UInt8)
    (s : σ) :
    let outcome := (replaceFile path bytes : StateM σ _).run s
    (∃ cause, outcome.1 = .error cause) ∧
        (∀ place, (tree outcome.2).find? place = (tree s).find? place) ∨
      outcome.1 = .ok () ∧
        ∃ place, (tree s).OpensAt path place ∧
          (tree s).SetAt place (.file bytes) (tree outcome.2) := by
  rw [replaceFile, run_bind, run_bind]
  obtain ⟨⟨cause, hrefused⟩, hsame⟩ | ⟨scratch, hcreated, hmade⟩ := createScratch_does hsteps path
    ((Host.scratchMark : StateM σ _).run s).1 4294967296 0 ((Host.scratchMark : StateM σ _).run s).2
  · simp only [hrefused]
    have hsame := hsame.trans (hsteps.scratchMark s)
    exact .inl ⟨⟨cause, rfl⟩, fun place => congrArg (·.find? place) hsame⟩
  · simp only [hcreated]
    rw [hsteps.scratchMark s] at hmade
    obtain ⟨place, hscratch⟩ := Tree.exists_hasScratch hmade
    rw [run_bind]
    obtain ⟨⟨cause, hrefused⟩, written, hleft⟩ | ⟨hdone, htaken⟩ :=
      publish_outcome hsteps path bytes _ hscratch
    · simp only [hrefused]
      rw [run_bind]
      obtain ⟨after, hremoved, hfind⟩ := hleft.remove
      have hafter := hsteps.removeFile scratch _ after hremoved
      exact .inl ⟨⟨cause, rfl⟩, hafter ▸ hfind⟩
    · simp only [hdone]
      exact .inr ⟨rfl, htaken⟩

end ResourceMerge.Files

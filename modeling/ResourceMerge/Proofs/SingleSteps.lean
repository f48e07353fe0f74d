import ResourceMerge.Failure
import ResourceMerge.Files.Tree

/-! What the steps of a run do to the tree of a file system. The file system is any one that has a
    tree in its state and whose operations are single steps (`SingleSteps`): each does to the tree
    what the operation of the same name in `Files.Tree` does, or is refused, and then nothing has
    happened; only the filling of a file may stop half-way. A job is followed from state to state by
    `runFrom`, and the jobs that only ask and read leave the tree as it is (`Job.Keeps`). -/

namespace ResourceMerge

variable {σ α β : Type}

namespace Files

variable {tree : σ → Tree}

theorem run_bind (step : StateM σ α) (next : α → StateM σ β) (s : σ) :
    (step >>= next).run s = (next (step.run s).1).run (step.run s).2 := rfl

/-- A step that leaves the tree as it is. -/
def Keeps (tree : σ → Tree) (step : StateM σ α) : Prop :=
  ∀ s, tree (step.run s).2 = tree s

/-- A step that leaves the tree as it is and answers what the tree holds, unless it is refused. -/
def Reads (tree : σ → Tree) (step : StateM σ (Answer α)) (query : Tree → Answer α) : Prop :=
  ∀ s, tree (step.run s).2 = tree s ∧ ∀ a, (step.run s).1 = .ok a → query (tree s) = .ok a

/-- A step that does to the tree what an operation does, or is refused and does nothing. -/
def Does (tree : σ → Tree) (step : StateM σ (Answer Unit)) (operation : Tree → Answer Tree) :
    Prop :=
  ∀ s, (∃ cause, (step.run s).1 = .error cause) ∧ tree (step.run s).2 = tree s ∨
    (step.run s).1 = .ok () ∧ operation (tree s) = .ok (tree (step.run s).2)

/-- A step that does to the tree what an operation does with some bytes, or is refused after it did
    nothing or what the operation does with other bytes. -/
def Fills (tree : σ → Tree) (step : StateM σ (Answer Unit))
    (operation : List UInt8 → Tree → Answer Tree) (bytes : List UInt8) : Prop :=
  ∀ s, (∃ cause, (step.run s).1 = .error cause) ∧
      (tree (step.run s).2 = tree s ∨
        ∃ written, operation written (tree s) = .ok (tree (step.run s).2)) ∨
    (step.run s).1 = .ok () ∧ operation bytes (tree s) = .ok (tree (step.run s).2)

/-- A step that does to the tree what an operation does, wherever this can be done. -/
def Succeeds (tree : σ → Tree) (step : StateM σ (Answer Unit))
    (operation : Tree → Answer Tree) : Prop :=
  ∀ s after, operation (tree s) = .ok after → tree (step.run s).2 = after

/-- A file system whose state holds a tree, on which all operations but the filling of a file are
    single steps, and that removes every file that can be removed. -/
structure SingleSteps (tree : σ → Tree) [Host (StateM σ)] : Prop where
  isFile : ∀ path, Keeps tree (Host.isFile path)
  isDirectory : ∀ path, Keeps tree (Host.isDirectory path)
  filesBelow : ∀ path, Keeps tree (Host.filesBelow path)
  scratchMark : Keeps tree Host.scratchMark
  readFile : ∀ path, Reads tree (Host.readFile path) (·.readFile path)
  makeDirectory : ∀ path, Does tree (Host.makeDirectory path) (·.makeDirectory path)
  createNew : ∀ path, Does tree (Host.createNew path) (·.createNew path)
  fill : ∀ path bytes,
    Fills tree (Host.fill path bytes) (fun written tree => tree.fill path written) bytes
  rename : ∀ source target, Does tree (Host.rename source target) (·.rename source target)
  removeFile : ∀ path, Succeeds tree (Host.removeFile path) (·.removeFile path)

theorem run_change (operation : Tree → Answer Tree) (s : Tree) :
    (Tree.change operation).run s =
      match operation s with
      | .ok after => (.ok (), after)
      | .error cause => (.error cause, s) := by
  cases hdone : operation s <;> simp [StateT.run, Tree.change, hdone]

theorem does_change (operation : Tree → Answer Tree) :
    Does (fun tree : Tree => tree) (Tree.change operation) operation := by
  intro s
  rw [run_change]
  cases hdone : operation s with
  | error cause => exact .inl ⟨⟨cause, rfl⟩, rfl⟩
  | ok after => exact .inr ⟨rfl, rfl⟩

theorem succeeds_change (operation : Tree → Answer Tree) :
    Succeeds (fun tree : Tree => tree) (Tree.change operation) operation := by
  intro s after hdone
  rw [run_change, show operation s = .ok after from hdone]

/-- A tree on its own is such a file system. -/
theorem Tree.singleSteps : SingleSteps fun tree : Tree => tree where
  isFile _ _ := rfl
  isDirectory _ _ := rfl
  filesBelow _ _ := rfl
  scratchMark _ := rfl
  readFile _ _ := ⟨rfl, fun _ h => h⟩
  makeDirectory path := does_change (·.makeDirectory path)
  createNew path := does_change (·.createNew path)
  fill path bytes s := (does_change (·.fill path bytes) s).imp_left (And.imp_right .inl)
  rename source target := does_change (·.rename source target)
  removeFile path := succeeds_change (·.removeFile path)

end Files

open Files

namespace Job

variable {tree : σ → Tree} {s s' : σ} {job : Job (StateM σ) α} {next : α → Job (StateM σ) β}
  {b : β}

/-- What a job answers from a state, and the state that it leaves. -/
def runFrom (job : Job (StateM σ) α) (s : σ) : Except Failure α × σ := job.run.run s

theorem runFrom_bind (job : Job (StateM σ) α) (next : α → Job (StateM σ) β) (s : σ) :
    (job >>= next).runFrom s =
      match job.runFrom s with
      | (.ok a, s') => (next a).runFrom s'
      | (.error failure, s') => (.error failure, s') := by
  rw [runFrom, ExceptT.run_bind, run_bind, runFrom]
  rcases job.run.run s with ⟨_ | _, s'⟩ <;> rfl

theorem runFrom_bind_ok (h : (job >>= next).runFrom s = (.ok b, s')) :
    ∃ a mid, job.runFrom s = (.ok a, mid) ∧ (next a).runFrom mid = (.ok b, s') := by
  rw [runFrom_bind] at h
  rcases hjob : job.runFrom s with ⟨_ | a, mid⟩
  · rw [hjob] at h
    simp at h
  · rw [hjob] at h
    exact ⟨a, mid, rfl, h⟩

theorem runFrom_ask (step : StateM σ α) (s : σ) :
    (ask step).runFrom s = (.ok (step.run s).1, (step.run s).2) := rfl

theorem runFrom_ofExcept_ok {x : Except Error α} {a : α}
    (h : (ofExcept x : Job (StateM σ) α).runFrom s = (.ok a, s')) : x = .ok a ∧ s = s' := by
  cases x <;> cases h
  exact ⟨rfl, rfl⟩

theorem runFrom_during (activity : Activity) (job : Job (StateM σ) α) (s : σ) :
    (during activity job).runFrom s =
      ((job.runFrom s).1.mapError fun failure =>
        { failure with during := activity :: failure.during }, (job.runFrom s).2) := by
  rw [runFrom, during, ExceptT.run_mk, run_bind, runFrom]
  rcases job.run.run s with ⟨_ | _, s'⟩ <;> rfl

theorem runFrom_during_ok {activity : Activity} {a : α}
    (h : (during activity job).runFrom s = (.ok a, s')) : job.runFrom s = (.ok a, s') := by
  rw [runFrom_during] at h
  generalize job.runFrom s = outcome at h ⊢
  obtain ⟨_ | _, mid⟩ := outcome
  · cases (Prod.mk.inj h).1
  · exact h

/-- A job that leaves the tree as it is. -/
def Keeps (tree : σ → Tree) (job : Job (StateM σ) α) : Prop := Files.Keeps tree job.run

theorem Keeps.tree_eq (h : Keeps tree job) {answer : Except Failure α}
    (hrun : job.runFrom s = (answer, s')) : tree s' = tree s := by
  have hkeeps : tree (job.runFrom s).2 = tree s := h s
  rwa [hrun] at hkeeps

theorem keeps_ofExcept (x : Except Error α) : Keeps tree (ofExcept x : Job (StateM σ) α) := by
  cases x <;> exact fun _ => rfl

theorem keeps_stop (cause : Cause) : Keeps tree (stop cause : Job (StateM σ) α) := fun _ => rfl

theorem keeps_pure (a : α) : Keeps tree (pure a : Job (StateM σ) α) := fun _ => rfl

theorem keeps_ask {step : StateM σ α} (h : Files.Keeps tree step) : Keeps tree (ask step) := h

theorem Keeps.bind (h : Keeps tree job) (hnext : ∀ a, Keeps tree (next a)) :
    Keeps tree (job >>= next) := by
  intro s
  change tree ((job >>= next).runFrom s).2 = tree s
  rw [runFrom_bind]
  have hjob : tree (job.runFrom s).2 = tree s := h s
  split
  next a mid hmid =>
    rw [hmid] at hjob
    exact (hnext a mid).trans hjob
  next failure mid hmid =>
    rw [hmid] at hjob
    exact hjob

/-- A job after a test that may stop it. -/
theorem keeps_unless (test : Bool) (cause : Cause) (h : Keeps tree job) :
    Keeps tree (if test then do let _ : Unit ← stop cause; job else job) := by
  cases test
  · exact h
  · exact (keeps_stop cause).bind fun _ => h

theorem Keeps.during (activity : Activity) (h : Keeps tree job) :
    Keeps tree (Job.during activity job) := by
  intro s
  change tree ((Job.during activity job).runFrom s).2 = tree s
  rw [runFrom_during]
  exact h s

theorem keeps_mapM {f : α → Job (StateM σ) β} (h : ∀ a, Keeps tree (f a)) :
    ∀ items : List α, Keeps tree (items.mapM f)
  | [] => keeps_pure []
  | item :: items => by
    rw [List.mapM_cons]
    exact (h item).bind fun _ => (keeps_mapM h items).bind fun _ => keeps_pure _

end Job

end ResourceMerge

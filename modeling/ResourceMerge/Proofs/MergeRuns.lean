import ResourceMerge.Merge
import ResourceMerge.Proofs.Outcome
import ResourceMerge.Proofs.Publication

/-! What a merge from end to end does to the files. A run is what it prepares and the writing of it
    (`run_eq_prepare`). To prepare leaves the tree as it is (`keeps_prepare`), and the writing fails
    without a change of any file or publishes the class (`finish_outcome`). The file system is any
    one of single steps; a link at the very end of the path gives way to the file. -/

namespace ResourceMerge

open Files

variable {σ : Type} {tree : σ → Tree} {s s' : σ}

namespace Merge

/-! ### The path of a class -/

theorem getLast?_append_class (base : String) :
    (base ++ ".class").toList.getLast? = some 's' := by
  rw [String.toList_append, List.getLast?_append]
  rfl

/-- The path of a class ends in the name of a file. -/
theorem getLast?_outputPath (directory className : String) :
    (outputPath directory className).toList.getLast? = some 's' := by
  rw [outputPath, Path.join]
  split
  · exact getLast?_append_class className
  · split <;> rw [← String.append_assoc] <;> exact getLast?_append_class _

theorem wantsDirectory_outputPath (directory className : String) :
    Tree.wantsDirectory (outputPath directory className) = false := by
  rw [Tree.wantsDirectory, getLast?_outputPath]
  decide

theorem fixedStart_le (cs : List Char) (c : Char) (hc : c ≠ '/') (hdot : c ≠ '.') :
    Path.fixedStart (cs ++ [c]) ≤ cs.length := by
  cases cs with
  | nil => simp [Path.fixedStart, hc, hdot]
  | cons first rest =>
    unfold Path.fixedStart
    split <;> simp

/-- The path of a class has a parent. -/
theorem exists_parent (directory className : String) :
    ∃ parent, Path.parent? (outputPath directory className) = some parent := by
  obtain ⟨cs, hcs⟩ := List.getLast?_eq_some_iff.1 (getLast?_outputPath directory className)
  have hstart := fixedStart_le cs 's' (by decide) (by decide)
  have hbody : Path.trimBack ((cs ++ ['s']).drop (Path.fixedStart (cs ++ ['s']))).reverse =
      's' :: (cs.drop (Path.fixedStart (cs ++ ['s']))).reverse := by
    rw [List.drop_append_of_le_length hstart, List.reverse_concat, Path.trimBack] <;> simp
  rw [Path.parent?, hcs, hbody]
  exact ⟨_, rfl⟩

/-! ### The end of a run -/

variable [Host (StateM σ)]

/-- A class gets its file as a whole at the end of its path, or no file changes. In both cases some
    of the missing directories on the path may be new. -/
theorem writeClass_outcome (hsteps : SingleSteps tree) {directory className parent : String}
    (hparent : Path.parent? (outputPath directory className) = some parent)
    (bytes : List UInt8) (s : σ) :
    let outcome := (writeClass directory className bytes : StateM σ _).run s
    ∃ ready, Tree.AddsDirectories (Path.ancestors parent) (tree s) ready ∧
      ((∃ e, outcome.1 = .error e) ∧ (∀ place, (tree outcome.2).find? place = ready.find? place) ∨
        outcome.1 = .ok (outputPath directory className) ∧
          ∃ place, ready.OpensAt (outputPath directory className) place ∧
            ready.SetAt place (.file bytes) (tree outcome.2)) := by
  have hadds := makeFirst_adds hsteps (Path.ancestors parent) s
  rw [← makeDirectories] at hadds
  rw [writeClass, hparent, Option.getD_some, run_bind]
  refine ⟨_, hadds, ?_⟩
  cases ((makeDirectories parent : StateM σ _).run s).1 with
  | error cause => exact .inl ⟨⟨_, rfl⟩, fun _ => rfl⟩
  | ok _ =>
    simp only
    rw [run_bind]
    obtain ⟨⟨cause, hrefused⟩, hsame⟩ | ⟨hdone, hplace⟩ := replaceFile_outcome hsteps
      (outputPath directory className) bytes ((makeDirectories parent : StateM σ _).run s).2
    · simp only [hrefused]
      exact .inl ⟨⟨_, rfl⟩, hsame⟩
    · simp only [hdone]
      exact .inr ⟨rfl, hplace⟩

/-! ### Before the writing -/

/-- What a run has before it writes. -/
structure Prepared where
  inputs : List String
  table : SymbolTable
  bytes : List UInt8

/-- All of a run that comes before the writing. -/
def prepare (plan : MergePlan) : Job (StateM σ) Prepared := do
  let filter ← Job.ofExcept (NameFilter.ofGlob plan.filter)
  let inputs ← collect filter plan.inputs
  let contents ← inputs.mapM readInput
  let table ← Job.during .merging (Job.ofExcept (Harvest.ofClasses filter contents))
  let bytes ← Job.during .building (Job.ofExcept (MergedClass.build table plan.target))
  return ⟨inputs, table, bytes⟩

/-- The writing. -/
def finish (plan : MergePlan) (prepared : Prepared) : Job (StateM σ) Report := do
  let output ← Job.during (.writing plan.outputDirectory) do
    Job.ofExcept
      (← Job.ask (writeClass plan.outputDirectory plan.target.className prepared.bytes))
  return ⟨prepared.inputs, prepared.table.scalars.size, prepared.table.arrays.size, output,
    prepared.bytes.length, Binary.crc32 prepared.bytes⟩

theorem run_eq_prepare (plan : MergePlan) :
    (run plan : Job (StateM σ) Report) = prepare plan >>= finish plan := by
  simp only [run, prepare, finish, bind_assoc, pure_bind]

theorem keeps_collectRoot (hsteps : SingleSteps tree) (filter : NameFilter) (root : String) :
    Job.Keeps tree (collectRoot filter root : Job (StateM σ) _) := by
  refine (Job.keeps_ask (hsteps.isFile root)).bind fun isFile => ?_
  split
  · exact Job.keeps_pure _
  refine (Job.keeps_ask (hsteps.isDirectory root)).bind fun isDirectory => ?_
  refine Job.keeps_unless _ _ ((Job.keeps_ask (hsteps.filesBelow root)).bind fun found => ?_)
  split
  · exact Job.keeps_pure _
  · exact .during _ (Job.keeps_stop _)

theorem keeps_collect (hsteps : SingleSteps tree) (filter : NameFilter) (roots : List String) :
    Job.Keeps tree (collect filter roots : Job (StateM σ) _) :=
  (Job.keeps_mapM (keeps_collectRoot hsteps filter) roots).bind fun _ => Job.keeps_pure _

theorem keeps_readInput (hsteps : SingleSteps tree) (path : String) :
    Job.Keeps tree (readInput path : Job (StateM σ) _) := by
  refine .during _ ((Job.keeps_ask fun s => (hsteps.readFile path s).1).bind fun answer => ?_)
  cases answer <;> exact fun _ => rfl

/-- Before the writing the tree is as it was. -/
theorem keeps_prepare (hsteps : SingleSteps tree) (plan : MergePlan) :
    Job.Keeps tree (prepare plan) :=
  (Job.keeps_ofExcept _).bind fun filter =>
    (keeps_collect hsteps filter plan.inputs).bind fun inputs =>
      (Job.keeps_mapM (keeps_readInput hsteps) inputs).bind fun _ =>
        (Job.Keeps.during _ (Job.keeps_ofExcept _)).bind fun _ =>
          (Job.Keeps.during _ (Job.keeps_ofExcept _)).bind fun _ => Job.keeps_pure _

/-- What is read from a file is in the file. -/
theorem readInput_ok (hsteps : SingleSteps tree) {path : String} {content : List UInt8}
    (h : (readInput path : Job (StateM σ) _).runFrom s = (.ok content, s')) :
    (tree s).readFile path = .ok content := by
  obtain ⟨answer, mid, hanswer, h⟩ := Job.runFrom_bind_ok (Job.runFrom_during_ok h)
  rw [Job.runFrom_ask] at hanswer
  cases answer with
  | error cause => cases h
  | ok bytes =>
    cases h
    exact (hsteps.readFile path s).2 content (Except.ok.inj (Prod.mk.inj hanswer).1)

theorem mapM_readInput_ok (hsteps : SingleSteps tree) : ∀ {inputs : List String}
    {contents : List (List UInt8)} {s s' : σ},
    (inputs.mapM readInput : Job (StateM σ) _).runFrom s = (.ok contents, s') →
      inputs.mapM (tree s).readFile = .ok contents
  | [], contents, s, s', h => by
    cases h
    rfl
  | path :: inputs, contents, s, s', h => by
    rw [List.mapM_cons] at h
    obtain ⟨content, mid, hcontent, h⟩ := Job.runFrom_bind_ok h
    obtain ⟨rest, last, hrest, h⟩ := Job.runFrom_bind_ok h
    have hread := mapM_readInput_ok hsteps hrest
    rw [(keeps_readInput hsteps path).tree_eq hcontent] at hread
    cases h
    rw [List.mapM_cons, readInput_ok hsteps hcontent, hread]
    rfl

/-- What a run has before it writes is made of the contents of the collected files. -/
theorem prepare_ok (hsteps : SingleSteps tree) {plan : MergePlan} {prepared : Prepared}
    (h : (prepare plan).runFrom s = (.ok prepared, s')) :
    ∃ filter contents, NameFilter.ofGlob plan.filter = .ok filter ∧
      ((collect filter plan.inputs).runFrom s).1 = .ok prepared.inputs ∧
      prepared.inputs.mapM (tree s).readFile = .ok contents ∧
      Harvest.ofClasses filter contents = .ok prepared.table ∧
      MergedClass.build prepared.table plan.target = .ok prepared.bytes := by
  obtain ⟨filter, s₁, hfilter, h⟩ := Job.runFrom_bind_ok h
  obtain ⟨inputs, s₂, hinputs, h⟩ := Job.runFrom_bind_ok h
  obtain ⟨contents, s₃, hcontents, h⟩ := Job.runFrom_bind_ok h
  obtain ⟨table, s₄, htable, h⟩ := Job.runFrom_bind_ok h
  obtain ⟨bytes, s₅, hbytes, h⟩ := Job.runFrom_bind_ok h
  cases h
  obtain ⟨hglob, rfl⟩ := Job.runFrom_ofExcept_ok hfilter
  have hread := mapM_readInput_ok hsteps hcontents
  rw [(keeps_collect hsteps filter plan.inputs).tree_eq hinputs] at hread
  exact ⟨filter, contents, hglob, by rw [hinputs], hread,
    (Job.runFrom_ofExcept_ok (Job.runFrom_during_ok htable)).1,
    (Job.runFrom_ofExcept_ok (Job.runFrom_during_ok hbytes)).1⟩

/-! ### Whole runs -/

/-- A file comes to the end of a path as a whole: it stands at the place that the path opens,
    whatever stood there before, and the directories that are new are on the way there. The condition
    on links concerns only reading the file back by its path, which may run through the very link that
    the file replaces. -/
def Publishes (before : Tree) (path : String) (bytes : List UInt8) (after : Tree) : Prop :=
  ∃ parent ready place, Path.parent? path = some parent ∧
    Tree.AddsDirectories (Path.ancestors parent) before ready ∧
    ready.OpensAt path place ∧ ready.SetAt place (.file bytes) after ∧
    ((∀ target, ready.find? place ≠ some (.link target)) → after.readFile path = .ok bytes)

theorem readFile_of_setAt {ready after : Tree} {path : String} {place : List String}
    {bytes : List UInt8} (hopens : ready.OpensAt path place)
    (hset : ready.SetAt place (.file bytes) after)
    (hlink : ∀ target, ready.find? place ≠ some (.link target))
    (hfile : Tree.wantsDirectory path = false) : after.readFile path = .ok bytes := by
  have hleads : after.LeadsTo true path (.entry place (.file bytes)) := by
    obtain hlocate | ⟨node, hnode, hlocate⟩ := hopens
    · exact (Tree.locate_eq_ok.1 hlocate).set (.inl rfl) hset (by simp)
    · have hleads := Tree.locate_eq_ok.1 hlocate
      have found : ready.find? place = some node := hleads.stands
      cases node with
      | file old => exact hleads.set (.inr ⟨old, rfl⟩) hset (by simp)
      | directory => exact absurd rfl hnode
      | link target => exact absurd found (hlink target)
  rw [Tree.readFile, Tree.locate_eq_ok.2 hleads]
  simp [hfile]

/-- The writing fails without a change of any file, or it publishes the class. -/
theorem finish_outcome (hsteps : SingleSteps tree) (plan : MergePlan) (prepared : Prepared)
    (s : σ) :
    let outcome := (finish plan prepared).runFrom s
    (∃ failure, outcome.1 = .error failure ∧ failure.during = [.writing plan.outputDirectory] ∧
        ∀ place bytes, (tree outcome.2).find? place = some (.file bytes) ↔
          (tree s).find? place = some (.file bytes)) ∨
      ∃ report, outcome.1 = .ok report ∧ report.inputs = prepared.inputs ∧
        Publishes (tree s) (outputPath plan.outputDirectory plan.target.className) prepared.bytes
          (tree outcome.2) := by
  obtain ⟨parent, hparent⟩ := exists_parent plan.outputDirectory plan.target.className
  obtain ⟨ready, hadds, hwritten⟩ := writeClass_outcome hsteps hparent prepared.bytes s
  rw [finish, Job.runFrom_bind, Job.runFrom_during, Job.runFrom_bind, Job.runFrom_ask]
  generalize (writeClass plan.outputDirectory plan.target.className prepared.bytes :
    StateM σ _).run s = written at hwritten ⊢
  obtain ⟨answer, after⟩ := written
  obtain ⟨⟨e, rfl⟩, hsame⟩ | ⟨rfl, place, hopens, hset⟩ := hwritten
  · refine .inl ⟨_, rfl, rfl, fun place bytes => ?_⟩
    rw [← hadds.same_files place bytes]
    exact hsame place ▸ Iff.rfl
  · exact .inr ⟨_, rfl, rfl, parent, ready, place, hparent, hadds, hopens, hset, fun hlink =>
      readFile_of_setAt hopens hset hlink (wantsDirectory_outputPath _ _)⟩

/-- A run that fails changes no file, and nothing at all unless it was writing; a run that succeeds
    publishes the class of the collected files and changes no other file. -/
theorem run_changes_one_file (hsteps : SingleSteps tree) (plan : MergePlan) (s : σ) :
    (∀ failure s', (run plan).runFrom s = (.error failure, s') →
      (∀ place bytes, (tree s').find? place = some (.file bytes) ↔
        (tree s).find? place = some (.file bytes)) ∧
      ((prepare plan).runFrom s = (.error failure, s') ∧ tree s' = tree s ∨
        (∃ prepared mid, (prepare plan).runFrom s = (.ok prepared, mid)) ∧
          failure.during = [.writing plan.outputDirectory])) ∧
    ∀ report s', (run plan).runFrom s = (.ok report, s') →
      ∃ filter contents table bytes, NameFilter.ofGlob plan.filter = .ok filter ∧
        ((collect filter plan.inputs).runFrom s).1 = .ok report.inputs ∧
        report.inputs.mapM (tree s).readFile = .ok contents ∧
        Harvest.ofClasses filter contents = .ok table ∧
        MergedClass.build table plan.target = .ok bytes ∧
        Publishes (tree s) (outputPath plan.outputDirectory plan.target.className) bytes
          (tree s') := by
  rw [run_eq_prepare, Job.runFrom_bind]
  rcases hprepare : (prepare plan).runFrom s with ⟨failure | prepared, mid⟩
  · have hsame := (keeps_prepare hsteps plan).tree_eq hprepare
    refine ⟨fun failure' s' h => ?_, fun report s' h => by cases h⟩
    cases h
    exact ⟨fun place bytes => by rw [hsame], .inl ⟨rfl, hsame⟩⟩
  · have hsame := (keeps_prepare hsteps plan).tree_eq hprepare
    obtain ⟨filter, contents, hglob, hinputs, hread, htable, hbytes⟩ := prepare_ok hsteps hprepare
    have hfinish := finish_outcome hsteps plan prepared mid
    rw [hsame] at hfinish
    simp only
    generalize (finish plan prepared).runFrom mid = outcome at hfinish ⊢
    obtain ⟨answer, after⟩ := outcome
    obtain ⟨failure, rfl, hduring, hfiles⟩ | ⟨report, rfl, hreport, hpublishes⟩ := hfinish
    · refine ⟨fun failure' s' h => ?_, fun report s' h => by cases h⟩
      cases h
      exact ⟨hfiles, .inr ⟨⟨prepared, mid, rfl⟩, hduring⟩⟩
    · refine ⟨fun failure s' h => (by cases h), fun report' s' h => ?_⟩
      cases h
      rw [hreport]
      exact ⟨filter, contents, prepared.table, prepared.bytes, hglob, hinputs, hread, htable,
        hbytes, hpublishes⟩

/-- A class with one scalar and one array. -/
def sampleClass : Except Error (List UInt8) :=
  MergedClass.build
    ⟨⟨[("R$styleable.x", 7)], by decide⟩, ⟨[("a", [1, -200])], by decide⟩⟩ MergedClass.defaultTarget

/-- The class beside another file. -/
def sampleTree (bytes : List UInt8) : Tree :=
  ⟨[("in", .directory [("R$a.class", .file bytes), ("note", .file [7])])], []⟩

/-- To merge all of a directory into another one. -/
def samplePlan (directory : String) : MergePlan :=
  ⟨["in"], directory, "R$*", none, MergedClass.defaultTarget⟩

/-- To merge the class into a missing directory succeeds, and into a file it fails. -/
theorem run_changes_one_file_sample :
    SingleSteps (fun tree : Tree => tree) ∧ ∃ input, sampleClass = .ok input ∧
      (∃ report bytes after,
        (run (samplePlan "out")).runFrom (sampleTree input) = (.ok report, after) ∧
          report.inputs = ["in/R$a.class"] ∧
          Publishes (sampleTree input) "out/R$styleable.class" bytes after) ∧
      ∃ failure after,
        (run (samplePlan "in/note")).runFrom (sampleTree input) = (.error failure, after) ∧
          ∀ place bytes, after.find? place = some (.file bytes) ↔
            (sampleTree input).find? place = some (.file bytes) := by
  have hsample : sampleClass.toOption.any (fun input =>
      ((run (samplePlan "out")).runFrom (sampleTree input)).1.toOption.any
          (fun report => report.inputs = ["in/R$a.class"]) = true ∧
        ((run (samplePlan "in/note")).runFrom (sampleTree input)).1.toOption.isNone = true) =
      true := by
    decide +kernel
  obtain ⟨input, hinput, hruns⟩ := Except.exists_of_any hsample
  obtain ⟨hout, hnote⟩ := of_decide_eq_true hruns
  obtain ⟨report, hreport, hinputs⟩ := Except.exists_of_any hout
  have hpath : outputPath "out" "R$styleable" = "out/R$styleable.class" := by decide +kernel
  refine ⟨Tree.singleSteps, input, hinput, ?_, ?_⟩
  · have hruns := (run_changes_one_file Tree.singleSteps (samplePlan "out") (sampleTree input)).2
    rcases hrun : (run (samplePlan "out")).runFrom (sampleTree input) with ⟨answer, after⟩
    rw [hrun] at hreport
    obtain ⟨-, -, -, bytes, -, -, -, -, -, hpublishes⟩ :=
      hruns report after (hrun.trans (by rw [← hreport]))
    exact ⟨report, bytes, after, by rw [← hreport], of_decide_eq_true hinputs, hpath ▸ hpublishes⟩
  · have hruns :=
      (run_changes_one_file Tree.singleSteps (samplePlan "in/note") (sampleTree input)).1
    rcases hrun : (run (samplePlan "in/note")).runFrom (sampleTree input) with
      ⟨failure | report, after⟩
    · exact ⟨failure, after, rfl, (hruns failure after hrun).1⟩
    · rw [hrun] at hnote
      cases hnote

end Merge

end ResourceMerge

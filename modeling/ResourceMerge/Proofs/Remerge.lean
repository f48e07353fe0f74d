import ResourceMerge.Proofs.MergeLaws
import ResourceMerge.Proofs.StagedMerge

/-! A merge that meets what it has written. The class of a table offers the arrays of the table in
    their order, with what is kept of their values, and scalars that the table holds. So behind the
    classes that the table was merged from it adds nothing, unless the table has a value of which
    less is kept: such a value is below -128, and what comes back of it is not. The arrays in front
    of the first one with such a value are accepted, and that one is a conflict. -/

namespace ResourceMerge

/-- What is kept of a value is not below -128. -/
theorem le_kept (v : Int32) : -128 ≤ kept v := by
  rw [kept]
  split
  · have hlow := Int8.le_toInt v.toInt8
    rw [Int32.le_iff_toInt_le, Int8.toInt_toInt32]
    exact hlow
  · rename_i hnot
    exact Int32.not_lt.1 hnot

/-- A list of values with one below -128 does not come back as it was. -/
theorem map_kept_ne {values : List Int32} (h : values.any (· < -128) = true) :
    values.map kept ≠ values := by
  intro hsame
  obtain ⟨v, hv, hlow⟩ := List.any_eq_true.1 h
  rw [← hsame] at hv
  obtain ⟨w, -, rfl⟩ := List.mem_map.1 hv
  exact Int32.not_lt.2 (le_kept w) (of_decide_eq_true hlow)

theorem any_low_eq_false {values : List Int32} :
    values.any (· < -128) = false ↔ ∀ v ∈ values, -128 ≤ v := by
  simp [Int32.not_lt]

namespace Harvest

open MergedClass

variable {filter : NameFilter} {inputs : List (List UInt8)} {t found : SymbolTable}

/-- One more class is merged into the table of the others. -/
theorem ofClasses_concat {bytes : List UInt8} (h : ofClasses filter inputs = .ok t)
    (hfound : ofClass filter bytes = .ok found) :
    ofClasses filter (inputs ++ [bytes]) = outcome (SymbolTable.merge found) t := by
  have hinputs := ofClasses_eq_ok.1 h
  rw [mergeAll, List.forM_eq_forM] at hinputs
  rw [ofClasses, outcome, outcome, mergeAll, List.forM_eq_forM, List.forM_append, List.forM_cons]
  simp only [Bind.bind, EStateM.bind, hinputs, hfound]
  cases SymbolTable.merge found t <;> rfl

/-- A table whose entries are all held already is merged without a trace. -/
theorem outcome_merge_of_subset (hscalars : found.scalars.entries ⊆ t.scalars.entries)
    (harrays : found.arrays.entries ⊆ t.arrays.entries) :
    outcome (SymbolTable.merge found) t = .ok t := by
  have hjoins : t.Joins found t :=
    ⟨Registry.joins_of_subset hscalars, Registry.joins_of_subset harrays⟩
  rw [outcome, SymbolTable.merge_eq_ok.2 hjoins]

/-- The first array of which less is kept is the first one that differs. -/
theorem clash_of_kept {entries : List (String × List Int32)} {entry : String × List Int32}
    (hentries : entries = t.arrays.entries.map Initializer.keptEntry)
    (hfirst : t.arrays.entries.find? (fun entry => entry.2.any (· < -128)) = some entry) :
    t.arrays.Clash entries entry.1 entry.2 (entry.2.map kept) := by
  obtain ⟨hlow, before, behind, htable, hbefore⟩ := List.find?_eq_some_iff_append.1 hfirst
  have hsame : before.map Initializer.keptEntry = before := by
    refine map_keptEntry fun other hother => any_low_eq_false.1 ?_
    simpa only [Bool.not_eq_true'] using hbefore other hother
  constructor
  case place =>
    refine ⟨before, behind.map Initializer.keptEntry, ?_, ?_⟩
    · rw [hentries, htable, List.map_append, List.map_cons, hsame]
      rfl
    · have hheld : before ⊆ t.arrays.entries := by
        rw [htable]
        exact List.subset_append_left before _
      exact (Registry.joins_of_subset hheld).agree
  case holds =>
    rw [Registry.find?_eq_some_iff, htable]
    exact List.mem_append_right _ List.mem_cons_self
  case differs => exact (map_kept_ne hlow).symm

/-- Classes merge to the same table when the class of this table comes behind them, exactly if no
    array of the table has a value below -128. Otherwise they end in the conflict over the first
    array with such a value: the table expects its values, and finds the low eight bits of those
    below -128. -/
theorem ofClasses_written {target : Target} {bytes : List UInt8}
    (hfilter : filter.accepts (simpleName target.className) = true)
    (htable : ofClasses filter inputs = .ok t) (hbytes : build t target = .ok bytes) :
    (ofClasses filter (inputs ++ [bytes]) = .ok t ↔
      ∀ entry ∈ t.arrays.entries, ∀ v ∈ entry.2, -128 ≤ v) ∧
    ∀ entry, t.arrays.entries.find? (fun entry => entry.2.any (· < -128)) = some entry →
      ofClasses filter (inputs ++ [bytes]) = .error (.conflict entry.1 (.array entry.2)
        (.array (entry.2.map fun v => if v < -128 then v.toInt8.toInt32 else v))) := by
  obtain ⟨found, hfound, harrays, hscalars⟩ := ofClass_written hbytes hfilter
  have hheld : found.scalars.entries ⊆ t.scalars.entries := by
    rw [hscalars]
    exact List.filter_subset_self _
  rw [ofClasses_concat htable hfound]
  have hconflict : ∀ entry,
      t.arrays.entries.find? (fun entry => entry.2.any (· < -128)) = some entry →
      outcome (SymbolTable.merge found) t
        = .error (.conflict entry.1 (.array entry.2) (.array (entry.2.map kept))) := by
    intro entry hfirst
    have hagrees := Registry.agrees_iff.2 (Registry.joins_of_subset hheld).agree
    obtain ⟨u, hmerge⟩ := SymbolTable.merge_of_clash (.array hagrees (clash_of_kept harrays hfirst))
    rw [outcome, hmerge]
  refine ⟨⟨fun hsame => ?_, fun hvalues => ?_⟩, hconflict⟩
  · cases hfirst : t.arrays.entries.find? fun entry => entry.2.any (· < -128) with
    | some entry =>
      rw [hconflict entry hfirst] at hsame
      cases hsame
    | none =>
      intro entry hentry
      have hnone := List.find?_eq_none.1 hfirst entry hentry
      exact any_low_eq_false.1 (Bool.eq_false_iff.2 hnone)
  · refine outcome_merge_of_subset hheld ?_
    rw [harrays, map_keptEntry hvalues]
    exact List.Subset.refl _

/-- A class with a constant and three arrays, two of them with a value that is pushed as a short. -/
def sampleInput : Except Error (List UInt8) := do
  let draft ← ClassDraft.start defaultName superName .ofGeneratedClass defaultVersion
  let arrays : List (Instruction × List (Instruction × Instruction) × String) :=
    [(.pushSmall 1, [(.pushSmall 0, .pushSmall 5)], "a"),
      (.pushSmall 2, [(.pushSmall 0, .pushSmall 1), (.pushSmall 1, .pushShort (-200))], "b"),
      (.pushSmall 1, [(.pushSmall 0, .pushShort (-129))], "c")]
  let code := arrays.flatMap fun array =>
    Initializer.arrayCode array.1 array.2.1 (.intArray defaultName array.2.2)
  let members : ClassDraft.Step Unit := do
    ClassDraft.addField .ofConstant "x" intDescriptor (some 7)
    ClassDraft.addMethod .ofInitializer ClassFile.initializerName ClassFile.initializerDescriptor
      (code ++ [.finish]) 0
  match members draft with
  | .ok () draft => draft.write
  | .error e _ => .error e

theorem ofClasses_written_sample :
    ∃ filter input t bytes, NameFilter.ofGlob NameFilter.defaultGlob = .ok filter ∧
      sampleInput = .ok input ∧ ofClasses filter [input] = .ok t ∧
      t.arrays.entries = [("a", [5]), ("b", [1, -200]), ("c", [-129])] ∧
      build t defaultTarget = .ok bytes ∧
      ofClasses filter ([input] ++ [bytes])
        = .error (.conflict "b" (.array [1, -200]) (.array [1, 56])) := by
  have hfilters : (NameFilter.ofGlob NameFilter.defaultGlob).toOption.any (fun filter =>
      filter.accepts (simpleName defaultTarget.className) = true ∧
        sampleInput.toOption.any (fun input =>
          (ofClasses filter [input]).toOption.any fun t =>
            t.arrays.entries = [("a", [5]), ("b", [1, -200]), ("c", [-129])] ∧
              (build t defaultTarget).toOption.any (fun _ => true) = true) = true) = true := by
    decide +kernel
  obtain ⟨filter, hfilter, htests⟩ := Except.exists_of_any hfilters
  obtain ⟨haccepts, hinputs⟩ := of_decide_eq_true htests
  obtain ⟨input, hinput, htables⟩ := Except.exists_of_any hinputs
  obtain ⟨t, ht, htests⟩ := Except.exists_of_any htables
  obtain ⟨harrays, hbuilt⟩ := of_decide_eq_true htests
  obtain ⟨bytes, hbytes, -⟩ := Except.exists_of_any hbuilt
  have hconflict := (ofClasses_written haccepts ht hbytes).2 ("b", [1, -200])
    (by rw [harrays]; decide +kernel)
  exact ⟨filter, input, t, bytes, hfilter, hinput, ht, harrays, hbytes, hconflict⟩

end Harvest

end ResourceMerge

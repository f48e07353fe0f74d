import ResourceMerge.Proofs.Joining
import ResourceMerge.Proofs.MergedHarvest

/-! Merging in stages. Two groups of classes are merged and written, and the two written classes are
    merged again. The flat merge of all classes joins the tables of the groups, and the staged merge
    joins what is left of them: the same arrays, and of the scalars those that belong to the class.
    A class is built from nothing else, so both merges end in the same bytes. -/

namespace ResourceMerge

open MergedClass

namespace Harvest

variable {filter : NameFilter}

theorem ofClasses_eq_ok {inputs : List (List UInt8)} {t : SymbolTable} :
    ofClasses filter inputs = .ok t ↔ mergeAll filter inputs .empty = .ok () t := by
  unfold ofClasses outcome
  cases mergeAll filter inputs .empty with
  | ok _ u => simp
  | error e u => simp

/-- One class after the other. -/
theorem mergeAll_cons {bytes : List UInt8} {inputs : List (List UInt8)} {t u : SymbolTable} :
    mergeAll filter (bytes :: inputs) t = .ok () u ↔
      ∃ one middle, ofClass filter bytes = .ok one ∧ t.Joins one middle ∧
        mergeAll filter inputs middle = .ok () u := by
  rw [mergeAll, List.forM, bind_eq_ok]
  cases hone : ofClass filter bytes with
  | error e =>
    constructor
    · rintro ⟨_, _, hthrow, -⟩
      cases hthrow
    · rintro ⟨_, _, hone, -⟩
      cases hone
  | ok one =>
    constructor
    · rintro ⟨_, middle, hmerge, hrest⟩
      exact ⟨one, middle, rfl, SymbolTable.merge_eq_ok.1 hmerge, hrest⟩
    · rintro ⟨_, middle, ⟨⟩, hjoins, hrest⟩
      exact ⟨(), middle, SymbolTable.merge_eq_ok.2 hjoins, hrest⟩

theorem mergeAll_append : ∀ {first second : List (List UInt8)} {t u : SymbolTable},
    mergeAll filter (first ++ second) t = .ok () u ↔
      ∃ middle, mergeAll filter first t = .ok () middle ∧ mergeAll filter second middle = .ok () u
  | [], second, t, u => by
    constructor
    · intro h
      exact ⟨t, rfl, h⟩
    · rintro ⟨_, ⟨⟩, h⟩
      exact h
  | bytes :: first, second, t, u => by
    rw [List.cons_append, mergeAll_cons]
    constructor
    · rintro ⟨one, next, hone, hjoins, hrest⟩
      obtain ⟨middle, hfirst, hsecond⟩ := mergeAll_append.1 hrest
      exact ⟨middle, mergeAll_cons.2 ⟨one, next, hone, hjoins, hfirst⟩, hsecond⟩
    · rintro ⟨middle, hfirst, hsecond⟩
      obtain ⟨one, next, hone, hjoins, hrest⟩ := mergeAll_cons.1 hfirst
      exact ⟨one, next, hone, hjoins, mergeAll_append.2 ⟨middle, hrest, hsecond⟩⟩

/-- Classes merged into a table that joins `s` and `t` give what joins `s` and the same classes
    merged into `t`. -/
theorem mergeAll_joins : ∀ {inputs : List (List UInt8)} {s t st tx stx : SymbolTable},
    s.Joins t st → mergeAll filter inputs t = .ok () tx → mergeAll filter inputs st = .ok () stx →
    s.Joins tx stx
  | [], s, t, st, tx, stx, h, ht, hst => by
    cases ht
    cases hst
    exact h
  | bytes :: inputs, s, t, st, tx, stx, h, ht, hst => by
    obtain ⟨one, t', hone, ht', htx⟩ := mergeAll_cons.1 ht
    obtain ⟨one', st', hone', hst', hstx⟩ := mergeAll_cons.1 hst
    rw [hone] at hone'
    cases hone'
    exact mergeAll_joins (h.assoc ht' hst') htx hstx

/-- A flat merge of two groups of classes joins the tables of the groups. -/
theorem ofClasses_append {first second : List (List UInt8)} {t u all : SymbolTable}
    (hfirst : ofClasses filter first = .ok t) (hsecond : ofClasses filter second = .ok u)
    (hall : ofClasses filter (first ++ second) = .ok all) : t.Joins u all := by
  obtain ⟨middle, hmiddle, hrest⟩ := mergeAll_append.1 (ofClasses_eq_ok.1 hall)
  rw [ofClasses_eq_ok.1 hfirst] at hmiddle
  cases hmiddle
  exact mergeAll_joins (.empty t) (ofClasses_eq_ok.1 hsecond) hrest

end Harvest

namespace MergedClass

/-- Scalars of other classes add nothing to a class. -/
theorem forM_addScalar_own (owner : String) : ∀ entries : List (String × Int32),
    (entries.filter fun entry => isOwn owner entry.1).forM (addScalar owner)
      = entries.forM (addScalar owner)
  | [] => rfl
  | entry :: entries => by
    have hrest := forM_addScalar_own owner entries
    rw [List.filter_cons]
    cases hown : isOwn owner entry.1 with
    | true => rw [if_pos rfl, List.forM, List.forM, hrest]
    | false =>
      rw [if_neg Bool.false_ne_true, List.forM, hrest, addScalar, ownField?_eq_none.2 hown]
      rfl

/-- A class is built from the arrays of a table and the scalars that belong to it. -/
theorem build_eq_of_own {t u : SymbolTable} {target : Target} (harrays : u.arrays = t.arrays)
    (hscalars : u.scalars.entries
      = t.scalars.entries.filter fun entry => isOwn target.className entry.1) :
    build u target = build t target := by
  have hmembers : addMembers u target.className = addMembers t target.className := by
    rw [addMembers, addMembers, initializer, initializer, harrays, hscalars, forM_addScalar_own]
  rw [build, build, hmembers]

/-- Arrays without a value below -128 come back as they were. -/
theorem map_keptEntry {entries : List (String × List Int32)}
    (h : ∀ entry ∈ entries, ∀ v ∈ entry.2, -128 ≤ v) :
    entries.map Initializer.keptEntry = entries := by
  refine (List.map_congr_left fun entry hentry => ?_).trans (List.map_id _)
  refine Prod.ext rfl ((List.map_congr_left fun v hv => ?_).trans (List.map_id _))
  exact if_neg (Int32.not_lt.2 (h entry hentry v hv))

end MergedClass

namespace Harvest

/-- Two groups of classes, merged and written one by one and then merged with each other, give the
    class that a merge of all of them gives, if no array has a value below -128. -/
theorem ofClasses_staged {filter : NameFilter} {target : Target} {first second : List (List UInt8)}
    {t u all : SymbolTable} {a b : List UInt8}
    (hfilter : filter.accepts (simpleName target.className) = true)
    (hall : ofClasses filter (first ++ second) = .ok all)
    (hvalues : ∀ entry ∈ all.arrays.entries, ∀ v ∈ entry.2, -128 ≤ v)
    (hfirst : ofClasses filter first = .ok t) (hsecond : ofClasses filter second = .ok u)
    (ha : build t target = .ok a) (hb : build u target = .ok b) :
    ∃ staged, ofClasses filter [a, b] = .ok staged ∧ build staged target = build all target := by
  have hjoins := ofClasses_append hfirst hsecond hall
  have hleft : ∀ entry ∈ t.arrays.entries, entry ∈ all.arrays.entries := by
    intro entry hentry
    rw [hjoins.arrays.eq]
    exact List.mem_append_left _ hentry
  have hright : ∀ entry ∈ u.arrays.entries, entry ∈ all.arrays.entries := by
    intro entry hentry
    rw [hjoins.arrays.eq]
    exact mem_joined_right hjoins.arrays.agree hentry
  obtain ⟨foundA, hfoundA, harraysA, hscalarsA⟩ := ofClass_written ha hfilter
  obtain ⟨foundB, hfoundB, harraysB, hscalarsB⟩ := ofClass_written hb hfilter
  rw [map_keptEntry fun entry hentry => hvalues entry (hleft entry hentry)] at harraysA
  rw [map_keptEntry fun entry hentry => hvalues entry (hright entry hentry)] at harraysB
  -- what is left of the flat table is what the written tables join to
  let staged : SymbolTable :=
    ⟨⟨all.scalars.entries.filter fun entry => isOwn target.className entry.1,
      all.scalars.distinct.sublist (List.filter_sublist.map _)⟩, all.arrays⟩
  have hstaged : foundA.Joins foundB staged := by
    constructor
    · rw [hscalarsA, hscalarsB]
      exact hjoins.scalars.filter (isOwn target.className)
    · rw [harraysA, harraysB]
      exact hjoins.arrays
  refine ⟨staged, ofClasses_eq_ok.2 ?_, build_eq_of_own rfl rfl⟩
  refine mergeAll_cons.2 ⟨foundA, foundA, hfoundA, .empty_left foundA, ?_⟩
  exact mergeAll_cons.2 ⟨foundB, staged, hfoundB, hstaged, rfl⟩

/-- Two groups of classes: the first one with a scalar of another class, the second one with an
    array that the first one has too. -/
def sampleGroups : Except Error (List (List UInt8) × List (List UInt8)) := do
  let foreign ← build ⟨⟨[("R$id.y", 5)], by decide⟩, .empty⟩ ⟨"R$id", 50⟩
  let first ← build
    ⟨⟨[("R$styleable.a_x", 0)], by decide⟩, ⟨[("a", [7, -100])], by decide⟩⟩ defaultTarget
  let second ← build
    ⟨⟨[("R$styleable.b_x", 0)], by decide⟩, ⟨[("b", [70000]), ("a", [7, -100])], by decide⟩⟩
    defaultTarget
  return ([foreign, first], [second])

/-- Both merges of the two groups, up to the classes that the first stage writes. -/
def sampleStages :
    Except Error (NameFilter × SymbolTable × List UInt8 × List UInt8) := do
  let filter ← NameFilter.ofGlob NameFilter.defaultGlob
  let groups ← sampleGroups
  let all ← ofClasses filter (groups.1 ++ groups.2)
  let t ← ofClasses filter groups.1
  let u ← ofClasses filter groups.2
  let a ← build t defaultTarget
  let b ← build u defaultTarget
  return (filter, all, a, b)

theorem ofClasses_staged_sample :
    ∃ filter groups t u all a b staged,
      NameFilter.ofGlob NameFilter.defaultGlob = .ok filter ∧ sampleGroups = .ok groups ∧
      ofClasses filter (groups.1 ++ groups.2) = .ok all ∧ all.scalars.size = 3 ∧
      ofClasses filter groups.1 = .ok t ∧ ofClasses filter groups.2 = .ok u ∧
      build t defaultTarget = .ok a ∧ build u defaultTarget = .ok b ∧
      ofClasses filter [a, b] = .ok staged ∧
      build staged defaultTarget = build all defaultTarget := by
  have hsample : sampleStages.toOption.any (fun stages =>
      stages.1.accepts (simpleName defaultTarget.className) = true ∧
        stages.2.1.scalars.size = 3 ∧
        stages.2.1.arrays.entries = [("a", [7, -100]), ("b", [70000])]) = true := by
    decide +kernel
  obtain ⟨stages, hstages, htests⟩ := Except.exists_of_any hsample
  simp only [sampleStages, Except.bind_eq_ok] at hstages
  obtain ⟨filter, hfilter, groups, hgroups, all, hall, t, ht, u, hu, a, ha, b, hb, ⟨⟩⟩ := hstages
  obtain ⟨haccepts, hsize, harrays⟩ := of_decide_eq_true htests
  have hvalues : ∀ entry ∈ all.arrays.entries, ∀ v ∈ entry.2, -128 ≤ v := by
    simp only at harrays
    simp [harrays]
  obtain ⟨staged, hstaged, hbuild⟩ := ofClasses_staged haccepts hall hvalues ht hu ha hb
  exact ⟨filter, groups, t, u, all, a, b, staged, hfilter, hgroups, hall, hsize, ht, hu, ha, hb,
    hstaged, hbuild⟩

end Harvest

end ResourceMerge

import ResourceMerge.Proofs.FirstAppearance
import ResourceMerge.Proofs.Joining

/-! What a merge makes of many tables. The table that a merge has accumulated holds exactly what the
    tables merged so far hold between them, so the merge goes on as long as the next table agrees
    with all of those. Hence a merge succeeds exactly if every two tables agree on the names they
    share, and its table lists each name where it first appears. Success and values depend only on
    which tables there are; only the order of the names depends on the order of the tables. -/

namespace ResourceMerge

variable {α : Type}

theorem names_joined (xs ys : List (String × α)) :
    (joined xs ys).map Prod.fst
      = xs.map Prod.fst ++ (ys.map Prod.fst).removeAll (xs.map Prod.fst) := by
  rw [joined, List.map_append, List.removeAll, List.filter_map]
  congr 2
  refine List.filter_congr fun entry _ => ?_
  simp

/-! ### Registries -/

namespace Registry

variable {r s m u : Registry α} {parts : List (Registry α)}

/-- The registries hold the same values under the names they share. -/
def Agrees (r s : Registry α) : Prop :=
  ∀ name v w, r.find? name = some v → s.find? name = some w → v = w

/-- One of the registries holds the value under the name. -/
def Held (parts : List (Registry α)) (name : String) (value : α) : Prop :=
  ∃ r ∈ parts, r.find? name = some value

/-- Between them the registries hold one value under each name. -/
def Consistent (parts : List (Registry α)) : Prop :=
  ∀ name v w, Held parts name v → Held parts name w → v = w

/-- `u` holds what the registries hold between them, each name once, in order of first
    appearance. -/
structure IsUnion (parts : List (Registry α)) (u : Registry α) : Prop where
  names : u.entries.map Prod.fst = (parts.flatMap fun r => r.entries.map Prod.fst).eraseDups
  find? : ∀ name value, u.find? name = some value ↔ Held parts name value

theorem consistent_iff : Consistent parts ↔ ∀ r ∈ parts, ∀ s ∈ parts, r.Agrees s := by
  constructor
  · intro h r hr s hs name v w hv hw
    exact h name v w ⟨r, hr, hv⟩ ⟨s, hs, hw⟩
  · rintro h name v w ⟨r, hr, hv⟩ ⟨s, hs, hw⟩
    exact h r hr s hs name v w hv hw

theorem held_cons {name : String} {value : α} :
    Held (r :: parts) name value ↔ r.find? name = some value ∨ Held parts name value := by
  simp [Held]

theorem agrees_iff : r.Agrees s ↔ Agree r.entries s.entries := by
  simp only [Agrees, Agree, find?_eq_some_iff]

/-- Registries that agree can be joined. -/
theorem exists_joins (h : r.Agrees s) : ∃ m : Registry α, Joins r.entries s.entries m.entries := by
  have hdistinct : ((joined r.entries s.entries).map Prod.fst).Nodup := by
    rw [names_joined, List.nodup_append]
    refine ⟨r.distinct, s.distinct.sublist List.filter_sublist, ?_⟩
    rintro a ha b hb rfl
    have hnew := (List.mem_filter.1 hb).2
    simp [ha] at hnew
  exact ⟨⟨joined r.entries s.entries, hdistinct⟩, agrees_iff.1 h, rfl⟩

/-- A join holds what its two parts hold. -/
theorem find?_of_joins (h : Joins r.entries s.entries m.entries) {name : String} {value : α} :
    m.find? name = some value ↔ r.find? name = some value ∨ s.find? name = some value := by
  simp only [find?_eq_some_iff]
  constructor
  · intro hmem
    rw [h.eq, joined, List.mem_append, List.mem_filter] at hmem
    exact hmem.imp id fun h => h.1
  · rintro (hr | hs)
    · rw [h.eq]
      exact List.mem_append_left _ hr
    · rw [h.eq]
      exact mem_joined_right h.agree hs

theorem held_of_joins (h : Joins r.entries s.entries m.entries) (parts : List (Registry α))
    (name : String) (value : α) :
    Held (m :: parts) name value ↔ Held (r :: s :: parts) name value := by
  rw [held_cons, held_cons, held_cons, find?_of_joins h, or_assoc]

theorem consistent_of_joins (h : Joins r.entries s.entries m.entries) :
    Consistent (m :: parts) ↔ Consistent (r :: s :: parts) := by
  simp only [Consistent, held_of_joins h]

theorem isUnion_of_joins (h : Joins r.entries s.entries m.entries) (hu : IsUnion (m :: parts) u) :
    IsUnion (r :: s :: parts) u where
  names := by
    rw [hu.names, List.flatMap_cons, List.flatMap_cons, List.flatMap_cons, h.eq, names_joined,
      List.append_assoc]
    exact eraseDups_removeAll s.distinct _
  find? name value := by rw [hu.find?, held_of_joins h]

theorem consistent_singleton (r : Registry α) : Consistent [r] := by
  rintro name v w ⟨_, hr, hv⟩ ⟨_, hr', hw⟩
  rw [List.mem_singleton] at hr hr'
  subst hr hr'
  rw [hv] at hw
  exact Option.some.inj hw

theorem isUnion_singleton (r : Registry α) : IsUnion [r] r where
  names := by simp [eraseDups_of_nodup r.distinct]
  find? name value := by simp [Held]

/-- The empty registry in front changes nothing. -/
theorem held_empty_cons {name : String} {value : α} :
    Held (empty :: parts) name value ↔ Held parts name value := by
  simp [held_cons]

theorem isUnion_empty_cons (h : IsUnion (empty :: parts) u) : IsUnion parts u where
  names := h.names
  find? name value := by rw [h.find?, held_empty_cons]

end Registry

/-! ### Tables -/

namespace SymbolTable

variable {t u : SymbolTable} {parts : List SymbolTable}

/-- The tables hold the same values under the names they share, scalars and arrays apart. -/
def Agrees (t u : SymbolTable) : Prop := t.scalars.Agrees u.scalars ∧ t.arrays.Agrees u.arrays

/-- Every two of the tables agree. -/
def Consistent (parts : List SymbolTable) : Prop := ∀ t ∈ parts, ∀ u ∈ parts, t.Agrees u

/-- `u` is the union of the tables, scalars and arrays apart. -/
structure IsUnion (parts : List SymbolTable) (u : SymbolTable) : Prop where
  scalars : Registry.IsUnion (parts.map scalars) u.scalars
  arrays : Registry.IsUnion (parts.map arrays) u.arrays

theorem consistent_iff : Consistent parts ↔
    Registry.Consistent (parts.map scalars) ∧ Registry.Consistent (parts.map arrays) := by
  simp only [Registry.consistent_iff, List.forall_mem_map]
  constructor
  · intro h
    exact ⟨fun t ht u hu => (h t ht u hu).1, fun t ht u hu => (h t ht u hu).2⟩
  · rintro ⟨hscalars, harrays⟩ t ht u hu
    exact ⟨hscalars t ht u hu, harrays t ht u hu⟩

theorem exists_joins (h : t.Agrees u) : ∃ m, t.Joins u m := by
  obtain ⟨scalars, hscalars⟩ := Registry.exists_joins h.1
  obtain ⟨arrays, harrays⟩ := Registry.exists_joins h.2
  exact ⟨⟨scalars, arrays⟩, hscalars, harrays⟩

theorem consistent_of_joins {m : SymbolTable} (h : t.Joins u m) :
    Consistent (m :: parts) ↔ Consistent (t :: u :: parts) := by
  simp only [consistent_iff, List.map_cons]
  rw [Registry.consistent_of_joins h.scalars, Registry.consistent_of_joins h.arrays]

theorem isUnion_of_joins {m : SymbolTable} (h : t.Joins u m) {v : SymbolTable}
    (hv : IsUnion (m :: parts) v) : IsUnion (t :: u :: parts) v :=
  ⟨Registry.isUnion_of_joins h.scalars hv.scalars, Registry.isUnion_of_joins h.arrays hv.arrays⟩

/-- Merges tables one after the other. -/
def mergeEach (parts : List SymbolTable) : Update Unit := parts.forM merge

theorem mergeEach_cons {v : SymbolTable} :
    mergeEach (u :: parts) t = .ok () v ↔ ∃ m, t.Joins u m ∧ mergeEach parts m = .ok () v := by
  rw [mergeEach, List.forM, bind_eq_ok]
  constructor
  · rintro ⟨_, m, hmerge, hrest⟩
    exact ⟨m, merge_eq_ok.1 hmerge, hrest⟩
  · rintro ⟨m, hjoins, hrest⟩
    exact ⟨(), m, merge_eq_ok.2 hjoins, hrest⟩

/-- Tables can be merged into a table exactly if all of them agree with each other. -/
theorem mergeEach_succeeds_iff : ∀ (parts : List SymbolTable) (t : SymbolTable),
    (∃ u, mergeEach parts t = .ok () u) ↔ Consistent (t :: parts)
  | [], t => by
    have halone : Consistent [t] :=
      consistent_iff.2 ⟨Registry.consistent_singleton _, Registry.consistent_singleton _⟩
    exact iff_of_true ⟨t, rfl⟩ halone
  | next :: parts, t => by
    constructor
    · rintro ⟨u, hu⟩
      obtain ⟨m, hjoins, hrest⟩ := mergeEach_cons.1 hu
      exact (consistent_of_joins hjoins).1 ((mergeEach_succeeds_iff parts m).1 ⟨u, hrest⟩)
    · intro h
      obtain ⟨m, hjoins⟩ := exists_joins (h t (by simp) next (by simp))
      obtain ⟨u, hu⟩ := (mergeEach_succeeds_iff parts m).2 ((consistent_of_joins hjoins).2 h)
      exact ⟨u, mergeEach_cons.2 ⟨m, hjoins, hu⟩⟩

/-- What they are merged to is their union. -/
theorem isUnion_of_mergeEach : ∀ {parts : List SymbolTable} {t u : SymbolTable},
    mergeEach parts t = .ok () u → IsUnion (t :: parts) u
  | [], t, _, h => by
    cases h
    exact ⟨Registry.isUnion_singleton _, Registry.isUnion_singleton _⟩
  | next :: parts, t, u, h => by
    obtain ⟨m, hjoins, hrest⟩ := mergeEach_cons.1 h
    exact isUnion_of_joins hjoins (isUnion_of_mergeEach hrest)

/-- The empty table agrees with every table, so it does not matter in front of others. -/
theorem consistent_empty_cons : Consistent (empty :: parts) ↔ Consistent parts := by
  have hheld : ∀ {α : Type} (parts : List (Registry α)),
      Registry.Consistent (Registry.empty :: parts) ↔ Registry.Consistent parts := by
    intro α parts
    simp only [Registry.Consistent, Registry.held_empty_cons]
  simp only [consistent_iff, List.map_cons]
  exact and_congr (hheld _) (hheld _)

theorem isUnion_empty_cons (h : IsUnion (empty :: parts) u) : IsUnion parts u :=
  ⟨Registry.isUnion_empty_cons h.scalars, Registry.isUnion_empty_cons h.arrays⟩

end SymbolTable

end ResourceMerge

import ResourceMerge.Proofs.Union

/-! The laws of merging one table into another. A merge has two outcomes only: the joined table,
    where the tables agree, or the conflict over the first entry of the second table that differs
    from what the first table holds. That the first table alone tells the conflict is the one point
    to prove: the merge meets the entry in a table that has grown, but the entries before it have
    other names. Where both merges of three tables succeed they join the same entries, and where one
    of them fails two of the three tables disagree, so the other one fails too. The order of two
    tables decides the order of the names and nothing else. -/

namespace ResourceMerge

/-! ### The first entry that differs -/

namespace Registry

variable {α : Type} {r s m : Registry α} {name : String} {held offered : α}

/-- The first of the entries that differs from what the registry holds under its name. -/
structure Clash (r : Registry α) (entries : List (String × α)) (name : String)
    (held offered : α) : Prop where
  place : ∃ before behind, entries = before ++ (name, offered) :: behind ∧ Agree r.entries before
  holds : r.find? name = some held
  differs : held ≠ offered

/-- An entry that the registry accepts is not where they differ. -/
theorem Clash.cons {value : α} {other : String} {rest : List (String × α)}
    (h : r.Clash rest name held offered) (haccepted : ∀ v, r.find? other = some v → v = value) :
    r.Clash ((other, value) :: rest) name held offered where
  place := by
    obtain ⟨before, behind, rfl, hagree⟩ := h.place
    refine ⟨(other, value) :: before, behind, rfl, fun n v w hv hw => ?_⟩
    rcases List.mem_cons.1 hw with hw | hw
    · cases hw
      exact haccepted v (find?_eq_some_iff.2 hv)
    · exact hagree n v w hv hw
  holds := h.holds
  differs := h.differs

/-- Entries that do not agree with a registry have a first one that differs. -/
theorem exists_clash [DecidableEq α] : ∀ {entries : List (String × α)},
    ¬ Agree r.entries entries → ∃ name held offered, r.Clash entries name held offered
  | [], h => absurd (fun _ _ _ _ hw => nomatch hw) h
  | (other, value) :: rest, h => by
    by_cases haccepted : ∀ v, r.find? other = some v → v = value
    · have hrest : ¬ Agree r.entries rest := by
        intro hrest
        refine h fun n v w hv hw => ?_
        rcases List.mem_cons.1 hw with hw | hw
        · cases hw
          exact haccepted v (find?_eq_some_iff.2 hv)
        · exact hrest n v w hv hw
      obtain ⟨name, held, offered, hclash⟩ := exists_clash hrest
      exact ⟨name, held, offered, hclash.cons haccepted⟩
    · simp only [Classical.not_forall] at haccepted
      obtain ⟨v, hfound, hne⟩ := haccepted
      exact ⟨other, v, value, ⟨[], rest, rfl, fun _ _ _ _ hw => nomatch hw⟩, hfound, hne⟩

/-! ### Agreement -/

theorem agrees_comm : r.Agrees s ↔ s.Agrees r := by
  constructor <;> exact fun h name v w hv hw => (h name w v hw hv).symm

/-- Entries that a registry holds already change nothing. -/
theorem joins_of_subset {entries : List (String × α)} (h : entries ⊆ r.entries) :
    Joins r.entries entries r.entries where
  agree name v w hv hw := by
    have hfound := find?_eq_some_iff.2 (h hw)
    rw [find?_eq_some_iff.2 hv] at hfound
    exact Option.some.inj hfound
  eq := by
    have hnone : (entries.filter fun entry => entry.1 ∉ r.entries.map Prod.fst) = [] := by
      rw [List.filter_eq_nil_iff]
      intro entry hentry
      simpa using ⟨entry.2, h hentry⟩
    rw [joined, hnone, List.append_nil]

/-- What agrees with both parts of a join agrees with the join. -/
theorem agrees_of_joins (h : Joins r.entries s.entries m.entries) (u : Registry α) :
    u.Agrees m ↔ u.Agrees r ∧ u.Agrees s := by
  constructor
  · intro hm
    exact ⟨fun name v w hv hw => hm name v w hv ((find?_of_joins h).2 (.inl hw)),
      fun name v w hv hw => hm name v w hv ((find?_of_joins h).2 (.inr hw))⟩
  · rintro ⟨hr, hs⟩ name v w hv hw
    exact ((find?_of_joins h).1 hw).elim (hr name v w hv) (hs name v w hv)

/-- A join holds what its parts hold, whichever comes first. -/
theorem find?_of_joins_comm {n : Registry α} (h : Joins r.entries s.entries m.entries)
    (h' : Joins s.entries r.entries n.entries) (name : String) :
    m.find? name = n.find? name := by
  refine Option.ext fun value => ?_
  rw [find?_of_joins h, find?_of_joins h', or_comm]

end Registry

namespace SymbolTable

variable {a b c u t other : SymbolTable}

/-- The error of the first entry of `other` that differs from what `t` holds, scalars before
    arrays. -/
inductive Clash (t other : SymbolTable) : Error → Prop
  | scalar {name : String} {held offered : Int32}
      (first : t.scalars.Clash other.scalars.entries name held offered) :
      Clash t other (.conflict name (.scalar held) (.scalar offered))
  | array {name : String} {held offered : List Int32} (scalars : t.scalars.Agrees other.scalars)
      (first : t.arrays.Clash other.arrays.entries name held offered) :
      Clash t other (.conflict name (.array held) (.array offered))

/-! ### The conflict -/

/-- An insertion of another value than the one held is refused with both values. -/
def IsPart.Refuses {β : Type} (insert : String → β → Update Unit) (part : SymbolTable → Registry β)
    (shown : β → SymbolValue) : Prop :=
  ∀ name held offered t, (part t).find? name = some held → held ≠ offered →
    insert name offered t = .error (.conflict name (shown held) (shown offered)) t

theorem scalars_refuse : IsPart.Refuses insertScalar scalars .scalar := by
  intro name held offered t hheld hne
  rw [insertScalar, Registry.offer_of_some hheld, if_neg hne]

theorem arrays_refuse : IsPart.Refuses insertArray arrays .array := by
  intro name held offered t hheld hne
  rw [insertArray, Registry.offer_of_some hheld, if_neg hne]

/-- The entries before the first one that differs are taken, and that one is refused with the value
    that the table held from the beginning. -/
theorem IsPart.forM_refused {β : Type} [DecidableEq β] {insert : String → β → Update Unit}
    {part : SymbolTable → Registry β} {put : SymbolTable → Registry β → SymbolTable}
    {shown : β → SymbolValue} (h : IsPart insert part put) (hrefuses : Refuses insert part shown)
    {entries : List (String × β)} (hdistinct : (entries.map Prod.fst).Nodup) {t : SymbolTable}
    {name : String} {held offered : β} (hclash : (part t).Clash entries name held offered) :
    ∃ before behind grown, entries = before ++ (name, offered) :: behind ∧
      ResourceMerge.Joins (part t).entries before grown.entries ∧
      (entries.forM fun entry => insert entry.1 entry.2) t
        = .error (.conflict name (shown held) (shown offered)) (put t grown) := by
  obtain ⟨before, behind, rfl, hagree⟩ := hclash.place
  have hbefore : (before.map Prod.fst).Nodup :=
    hdistinct.sublist ((List.sublist_append_left before _).map _)
  have hagrees : (part t).Agrees ⟨before, hbefore⟩ := Registry.agrees_iff.2 hagree
  obtain ⟨grown, hjoins⟩ := Registry.exists_joins hagrees
  have htaken : (before.forM fun entry => insert entry.1 entry.2) t = .ok () (put t grown) :=
    (h.forM_eq_ok before t _).2 ⟨grown, (Registry.offerAll_eq_ok hbefore).2 hjoins, rfl⟩
  have hheld : (part (put t grown)).find? name = some held := by
    rw [h.part_put]
    exact (Registry.find?_of_joins hjoins).2 (.inl hclash.holds)
  refine ⟨before, behind, grown, rfl, hjoins, ?_⟩
  rw [List.forM_eq_forM] at htaken ⊢
  rw [List.forM_append, List.forM_cons]
  simp only [Bind.bind, EStateM.bind, htaken,
    hrefuses name held offered _ hheld hclash.differs]

/-- Where a merge stops, and what it leaves: at the first entry that differs, scalars before arrays,
    with the new ones of the entries before it added. -/
inductive Stops (t other : SymbolTable) : Error → SymbolTable → Prop
  | scalar {before behind : List (String × Int32)} {name : String} {held offered : Int32}
      {u : SymbolTable} (entries : other.scalars.entries = before ++ (name, offered) :: behind)
      (holds : t.scalars.find? name = some held) (differs : held ≠ offered)
      (scalars : ResourceMerge.Joins t.scalars.entries before u.scalars.entries)
      (arrays : u.arrays = t.arrays) :
      Stops t other (.conflict name (.scalar held) (.scalar offered)) u
  | array {before behind : List (String × List Int32)} {name : String} {held offered : List Int32}
      {u : SymbolTable} (entries : other.arrays.entries = before ++ (name, offered) :: behind)
      (holds : t.arrays.find? name = some held) (differs : held ≠ offered)
      (scalars : ResourceMerge.Joins t.scalars.entries other.scalars.entries u.scalars.entries)
      (arrays : ResourceMerge.Joins t.arrays.entries before u.arrays.entries) :
      Stops t other (.conflict name (.array held) (.array offered)) u

/-- A clash ends a merge. -/
theorem stops_of_clash {e : Error} :
    t.Clash other e → ∃ u, merge other t = .error e u ∧ t.Stops other e u
  | .scalar first => by
    obtain ⟨before, behind, grown, hentries, hjoins, hrefused⟩ :=
      scalars_isPart.forM_refused scalars_refuse other.scalars.distinct first
    refine ⟨{ t with scalars := grown }, ?_, .scalar hentries first.holds first.differs hjoins rfl⟩
    rw [merge]
    simp only [Bind.bind, EStateM.bind, hrefused]
  | .array scalars first => by
    obtain ⟨grown, hjoins⟩ := Registry.exists_joins scalars
    have htaken := (scalars_isPart.forM_eq_ok other.scalars.entries t { t with scalars := grown }).2
      ⟨grown, (Registry.offerAll_eq_ok other.scalars.distinct).2 hjoins, rfl⟩
    obtain ⟨before, behind, grown', hentries, hjoins', hrefused⟩ :=
      arrays_isPart.forM_refused arrays_refuse other.arrays.distinct
        (t := { t with scalars := grown }) first
    refine ⟨⟨grown, grown'⟩, ?_, .array hentries first.holds first.differs hjoins hjoins'⟩
    rw [merge]
    simp only [Bind.bind, EStateM.bind, htaken, hrefused]

theorem merge_of_clash {e : Error} (h : t.Clash other e) : ∃ u, merge other t = .error e u :=
  (stops_of_clash h).imp fun _ hstops => hstops.1

theorem exists_clash (h : ¬ t.Agrees other) : ∃ e, t.Clash other e := by
  by_cases hscalars : t.scalars.Agrees other.scalars
  · have harrays : ¬ Agree t.arrays.entries other.arrays.entries := by
      intro harrays
      exact h ⟨hscalars, Registry.agrees_iff.2 harrays⟩
    obtain ⟨_, _, _, first⟩ := Registry.exists_clash harrays
    exact ⟨_, .array hscalars first⟩
  · rw [Registry.agrees_iff] at hscalars
    obtain ⟨_, _, _, first⟩ := Registry.exists_clash hscalars
    exact ⟨_, .scalar first⟩

/-! ### The two outcomes -/

/-- Tables merge exactly if they agree. -/
theorem merge_succeeds_iff : (∃ u, merge other t = .ok () u) ↔ t.Agrees other := by
  simp only [merge_eq_ok]
  constructor
  · rintro ⟨u, hscalars, harrays⟩
    exact ⟨Registry.agrees_iff.2 hscalars.agree, Registry.agrees_iff.2 harrays.agree⟩
  · exact exists_joins

/-- And otherwise end in the conflict over the first entry that differs. -/
theorem merge_fails_iff {e : Error} : (∃ u, merge other t = .error e u) ↔ t.Clash other e := by
  refine ⟨?_, merge_of_clash⟩
  rintro ⟨u, hmerge⟩
  have hdisagree : ¬ t.Agrees other := by
    intro hagrees
    obtain ⟨v, hok⟩ := merge_succeeds_iff.2 hagrees
    rw [hmerge] at hok
    cases hok
  obtain ⟨e', hclash⟩ := exists_clash hdisagree
  obtain ⟨v, hmerge'⟩ := merge_of_clash hclash
  rw [hmerge] at hmerge'
  cases hmerge'
  exact hclash

/-- What a merge that fails leaves behind. -/
theorem stops_of_merge {e : Error} (h : merge other t = .error e u) : t.Stops other e u := by
  obtain ⟨v, hmerge, hstops⟩ := stops_of_clash (merge_fails_iff.1 ⟨u, h⟩)
  rw [h] at hmerge
  cases hmerge
  exact hstops

/-! ### Laws -/

theorem agrees_comm : a.Agrees b ↔ b.Agrees a :=
  and_congr Registry.agrees_comm Registry.agrees_comm

theorem agrees_of_joins (h : a.Joins b u) (t : SymbolTable) :
    t.Agrees u ↔ t.Agrees a ∧ t.Agrees b := by
  simp only [Agrees, Registry.agrees_of_joins h.scalars, Registry.agrees_of_joins h.arrays]
  exact and_and_and_comm

/-- Three tables can be merged in both groupings, with one result, or in none. -/
theorem joins_assoc : (∃ ab, a.Joins b ab ∧ ab.Joins c u) ↔ ∃ bc, b.Joins c bc ∧ a.Joins bc u := by
  constructor
  · rintro ⟨ab, hab, hall⟩
    have hagrees : c.Agrees a ∧ c.Agrees b :=
      (agrees_of_joins hab c).1 (agrees_comm.1 (merge_succeeds_iff.1 ⟨u, merge_eq_ok.2 hall⟩))
    obtain ⟨bc, hbc⟩ := exists_joins (agrees_comm.1 hagrees.2)
    exact ⟨bc, hbc, hab.assoc hbc hall⟩
  · rintro ⟨bc, hbc, hall⟩
    have hagrees : a.Agrees b ∧ a.Agrees c :=
      (agrees_of_joins hbc a).1 (merge_succeeds_iff.1 ⟨u, merge_eq_ok.2 hall⟩)
    have hthird : c.Agrees b := agrees_comm.1 (merge_succeeds_iff.1 ⟨bc, merge_eq_ok.2 hbc⟩)
    obtain ⟨ab, hab⟩ := exists_joins hagrees.1
    obtain ⟨v, hv⟩ := exists_joins
      (agrees_comm.1 ((agrees_of_joins hab c).2 ⟨agrees_comm.1 hagrees.2, hthird⟩))
    -- the first grouping ends in some table, and only one table joins the first and the last two
    have hmerge := merge_eq_ok.2 (hab.assoc hbc hv)
    rw [merge_eq_ok.2 hall] at hmerge
    cases hmerge
    exact ⟨ab, hab, hv⟩

/-- Tables merge exactly if they agree on the names they share, to the entries of the first and then
    those of the second that are new; otherwise the merge ends in the conflict over the first entry
    of the second that differs. Merging is associative up to the last entry, commutative up to the
    order of the entries, and has the empty table as its unit; a table merged with itself stays as
    it is. -/
theorem merge_laws (a b c : SymbolTable) :
    ((∃ u, merge b a = .ok () u) ↔ a.Agrees b) ∧
    (∀ u, merge b a = .ok () u →
      u.scalars.entries = joined a.scalars.entries b.scalars.entries ∧
      u.arrays.entries = joined a.arrays.entries b.arrays.entries) ∧
    (∀ e, (∃ u, merge b a = .error e u) ↔ a.Clash b e) ∧
    (∀ u, (∃ ab, merge b a = .ok () ab ∧ merge c ab = .ok () u) ↔
      ∃ bc, merge c b = .ok () bc ∧ merge bc a = .ok () u) ∧
    ((∃ u, merge b a = .ok () u) ↔ ∃ v, merge a b = .ok () v) ∧
    (∀ u v, merge b a = .ok () u → merge a b = .ok () v →
      ∀ name, u.scalar? name = v.scalar? name ∧ u.array? name = v.array? name) ∧
    merge .empty a = .ok () a ∧ merge a .empty = .ok () a ∧ merge a a = .ok () a := by
  refine ⟨merge_succeeds_iff, ?joined, fun _ => merge_fails_iff, ?assoc, ?comm, ?values,
    merge_eq_ok.2 (.empty a), merge_eq_ok.2 (.empty_left a), ?self⟩
  case self =>
    exact merge_eq_ok.2 ⟨Registry.joins_of_subset (.refl _), Registry.joins_of_subset (.refl _)⟩
  case joined =>
    intro u hmerge
    have hjoins := merge_eq_ok.1 hmerge
    exact ⟨hjoins.scalars.eq, hjoins.arrays.eq⟩
  case assoc =>
    intro u
    simp only [merge_eq_ok]
    exact joins_assoc
  case comm => rw [merge_succeeds_iff, merge_succeeds_iff, agrees_comm]
  case values =>
    intro u v hu hv name
    have hu := merge_eq_ok.1 hu
    have hv := merge_eq_ok.1 hv
    exact ⟨Registry.find?_of_joins_comm hu.scalars hv.scalars name,
      Registry.find?_of_joins_comm hu.arrays hv.arrays name⟩

/-- Two tables that agree, and one that disagrees with the first of them. -/
def sampleTables : SymbolTable × SymbolTable × SymbolTable :=
  (⟨⟨[("x", 1)], by decide⟩, ⟨[("p", [7]), ("q", [])], by decide⟩⟩,
    ⟨⟨[("y", 2), ("x", 1)], by decide⟩, ⟨[("r", [5]), ("p", [7])], by decide⟩⟩,
    ⟨⟨[("z", 3)], by decide⟩, ⟨[("p", [7]), ("q", [1]), ("r", [])], by decide⟩⟩)

theorem merge_laws_sample :
    ∃ u v, merge sampleTables.2.1 sampleTables.1 = .ok () u ∧
      u.scalars.entries = [("x", 1), ("y", 2)] ∧
      u.arrays.entries = [("p", [7]), ("q", []), ("r", [5])] ∧
      merge sampleTables.1 sampleTables.2.1 = .ok () v ∧ u.array? "q" = v.array? "q" ∧
      ∃ w, merge sampleTables.2.2 sampleTables.1
        = .error (.conflict "q" (.array []) (.array [1])) w := by
  obtain ⟨-, hjoined, -, -, hcomm, hvalues, -⟩ :=
    merge_laws sampleTables.1 sampleTables.2.1 .empty
  obtain ⟨-, -, hconflict, -⟩ := merge_laws sampleTables.1 sampleTables.2.2 .empty
  have hmerges : endsIn (fun _ _ => true) (merge sampleTables.2.1 sampleTables.1) = true := by
    decide +kernel
  obtain ⟨_, u, hu, -⟩ := exists_of_endsIn hmerges
  obtain ⟨v, hv⟩ := hcomm.1 ⟨u, hu⟩
  have hclash : sampleTables.1.Clash sampleTables.2.2
      (.conflict "q" (.array []) (.array [1])) := by
    refine .array (Registry.agrees_iff.2 ?_) ⟨⟨[("p", [7])], [("r", [])], rfl, ?_⟩, rfl, by decide⟩
    · simp +contextual [Agree, sampleTables]
    · simp +contextual [Agree, sampleTables, or_imp]
  exact ⟨u, v, hu, (hjoined u hu).1.trans (by decide), (hjoined u hu).2.trans (by decide), hv,
    (hvalues u v hu hv "q").2, (hconflict _).2 hclash⟩

end SymbolTable

end ResourceMerge

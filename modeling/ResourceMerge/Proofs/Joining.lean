import ResourceMerge.Proofs.Outcome
import ResourceMerge.Symbols.SymbolTable

/-! What insertions and merges make of a table. A name that a table does not hold is always taken, and
    its entry comes behind all others. A merge succeeds exactly if the tables agree on the names
    they share, and then the entries of the second come behind those of the first, without the names
    that the first has already. Joining in this sense is associative, and it commutes with the
    selection of entries by their names. -/

namespace ResourceMerge

/-! ### Free names -/

/-- A name is free if no entry has it. -/
theorem Registry.find?_eq_none_iff {α : Type} {r : Registry α} {name : String} :
    r.find? name = none ↔ name ∉ r.entries.map Prod.fst := by
  constructor
  · exact notMem_of_find?_eq_none
  · intro h
    cases hfound : r.find? name with
    | none => rfl
    | some value =>
      have hmem := List.mem_map_of_mem (f := Prod.fst) (find?_eq_some_iff.1 hfound)
      exact absurd hmem h

/-- The next of several distinct names is free. -/
theorem Registry.find?_next {α β : Type} {r : Registry α} {entry : String × β}
    {rest : List (String × β)}
    (h : (r.entries.map Prod.fst ++ (entry :: rest).map Prod.fst).Nodup) :
    r.find? entry.1 = none := by
  rw [find?_eq_none_iff]
  intro hmem
  exact (List.nodup_append.1 h).2.2 entry.1 hmem entry.1 (by simp) rfl

namespace SymbolTable

/-- The table with a scalar behind all others. -/
theorem insertScalar_fresh {t : SymbolTable} {name : String} (h : t.scalars.find? name = none)
    (value : Int32) :
    insertScalar name value t = .ok () { t with scalars := t.scalars.add name value h } := by
  rw [insertScalar, Registry.offer_of_none h]

/-- The table with an array behind all others. -/
theorem insertArray_fresh {t : SymbolTable} {name : String} (h : t.arrays.find? name = none)
    (values : List Int32) :
    insertArray name values t = .ok () { t with arrays := t.arrays.add name values h } := by
  rw [insertArray, Registry.offer_of_none h]

end SymbolTable

variable {α : Type} {xs ys zs us : List (String × α)}

/-! ### Entries -/

/-- The entries of one list, then those of another whose names are new. -/
def joined (xs ys : List (String × α)) : List (String × α) :=
  xs ++ ys.filter fun entry => entry.1 ∉ xs.map Prod.fst

/-- Two lists of entries hold the same values under the names they share. -/
def Agree (xs ys : List (String × α)) : Prop :=
  ∀ name v w, (name, v) ∈ xs → (name, w) ∈ ys → v = w

/-- `us` is what a merge makes of `xs` and `ys`. -/
structure Joins (xs ys us : List (String × α)) : Prop where
  agree : Agree xs ys
  eq : us = joined xs ys

theorem nil_joined (ys : List (String × α)) : joined [] ys = ys := by
  simp [joined]

theorem joined_nil (xs : List (String × α)) : joined xs [] = xs := by
  simp [joined]

theorem mem_names_joined {name : String} :
    name ∈ (joined xs ys).map Prod.fst ↔ name ∈ xs.map Prod.fst ∨ name ∈ ys.map Prod.fst := by
  rw [joined, List.map_append, List.mem_append]
  by_cases hname : name ∈ xs.map Prod.fst
  · simp only [hname, true_or]
  · simp only [hname, false_or, List.mem_map, List.mem_filter, decide_eq_true_eq]
    constructor
    · rintro ⟨entry, ⟨hentry, -⟩, rfl⟩
      exact ⟨entry, hentry, rfl⟩
    · rintro ⟨entry, hentry, rfl⟩
      exact ⟨entry, ⟨hentry, by simpa using hname⟩, rfl⟩

theorem joined_assoc (xs ys zs : List (String × α)) :
    joined (joined xs ys) zs = joined xs (joined ys zs) := by
  have hnew : (zs.filter fun entry => entry.1 ∉ (joined xs ys).map Prod.fst)
      = (zs.filter fun entry => entry.1 ∉ ys.map Prod.fst).filter
          fun entry => entry.1 ∉ xs.map Prod.fst := by
    rw [List.filter_filter]
    refine List.filter_congr fun entry _ => ?_
    rw [← Bool.decide_and, decide_eq_decide, mem_names_joined, not_or]
  rw [joined, hnew, joined, joined, joined, List.filter_append, List.append_assoc]

/-- Selecting entries by their names can be done before or after. -/
theorem filter_joined (p : String → Bool) (xs ys : List (String × α)) :
    (joined xs ys).filter (fun entry => p entry.1)
      = joined (xs.filter fun entry => p entry.1) (ys.filter fun entry => p entry.1) := by
  rw [joined, joined, List.filter_append, List.filter_filter, List.filter_filter]
  congr 1
  refine List.filter_congr fun entry _ => ?_
  cases hp : p entry.1 with
  | false => simp
  | true =>
    have hnames : entry.1 ∈ (xs.filter fun entry => p entry.1).map Prod.fst
        ↔ entry.1 ∈ xs.map Prod.fst := by
      simp only [List.mem_map, List.mem_filter]
      constructor
      · rintro ⟨other, ⟨hother, -⟩, hname⟩
        exact ⟨other, hother, hname⟩
      · rintro ⟨other, hother, hname⟩
        exact ⟨other, ⟨hother, by rw [hname, hp]⟩, hname⟩
    simp only [hnames, Bool.true_and, Bool.and_true]

/-- Where the lists agree, nothing of the second one is lost. -/
theorem mem_joined_right (h : Agree xs ys) {entry : String × α} (hentry : entry ∈ ys) :
    entry ∈ joined xs ys := by
  by_cases hname : entry.1 ∈ xs.map Prod.fst
  · obtain ⟨other, hother, heq⟩ := List.mem_map.1 hname
    have hvalue := h entry.1 other.2 entry.2 (heq ▸ hother) hentry
    have hsame : other = entry := Prod.ext heq hvalue
    exact List.mem_append_left _ (hsame ▸ hother)
  · exact List.mem_append_right _ (List.mem_filter.2 ⟨hentry, by simpa using hname⟩)

namespace Joins

theorem nil (xs : List (String × α)) : Joins xs [] xs :=
  ⟨fun _ _ _ _ h => by simp at h, (joined_nil xs).symm⟩

theorem nil_left (ys : List (String × α)) : Joins [] ys ys :=
  ⟨fun _ _ _ h => by simp at h, (nil_joined ys).symm⟩

/-- A merge into a merge is a merge of a merge. -/
theorem assoc {yzs xys xyzs : List (String × α)} (hxy : Joins xs ys xys) (hyz : Joins ys zs yzs)
    (hall : Joins xys zs xyzs) : Joins xs yzs xyzs where
  agree := by
    intro name v w hv hw
    rw [hyz.eq, joined, List.mem_append, List.mem_filter] at hw
    rcases hw with hw | ⟨hw, -⟩
    · exact hxy.agree name v w hv hw
    · refine hall.agree name v w ?_ hw
      rw [hxy.eq]
      exact List.mem_append_left _ hv
  eq := by rw [hall.eq, hxy.eq, hyz.eq, joined_assoc]

theorem filter (p : String → Bool) (h : Joins xs ys us) :
    Joins (xs.filter fun entry => p entry.1) (ys.filter fun entry => p entry.1)
      (us.filter fun entry => p entry.1) where
  agree := fun name v w hv hw =>
    h.agree name v w (List.mem_filter.1 hv).1 (List.mem_filter.1 hw).1
  eq := by rw [h.eq, filter_joined]

end Joins

/-! ### Registries -/

namespace Registry

/-- Offers entries one after the other. -/
def offerAll [DecidableEq α] (r : Registry α) (entries : List (String × α)) :
    Except α (Registry α) :=
  entries.foldlM (fun r entry => r.offer entry.1 entry.2) r

/-- An entry under a free name goes behind all others. -/
theorem joins_cons_of_free {entry : String × α} (hxs : entry.1 ∉ xs.map Prod.fst)
    (hys : entry.1 ∉ ys.map Prod.fst) : Joins (xs ++ [entry]) ys us ↔ Joins xs (entry :: ys) us := by
  have hother : ∀ other ∈ ys, other.1 ≠ entry.1 := by
    intro other hmem heq
    exact hys (List.mem_map.2 ⟨other, hmem, heq⟩)
  have heq : joined (xs ++ [entry]) ys = joined xs (entry :: ys) := by
    have hnew : (ys.filter fun other => other.1 ∉ (xs ++ [entry]).map Prod.fst)
        = ys.filter fun other => other.1 ∉ xs.map Prod.fst := by
      refine List.filter_congr fun other hmem => ?_
      simp [hother other hmem]
    rw [joined, hnew, joined, List.filter_cons_of_pos (by simpa using hxs), List.append_assoc]
    rfl
  constructor
  · rintro ⟨hagree, hus⟩
    refine ⟨fun name v w hv hw => ?_, hus.trans heq⟩
    rcases List.mem_cons.1 hw with rfl | hw
    · exact absurd (List.mem_map.2 ⟨_, hv, rfl⟩) hxs
    · exact hagree name v w (List.mem_append_left _ hv) hw
  · rintro ⟨hagree, hus⟩
    refine ⟨fun name v w hv hw => ?_, hus.trans heq.symm⟩
    rcases List.mem_append.1 hv with hv | hv
    · exact hagree name v w hv (List.mem_cons_of_mem _ hw)
    · rw [List.mem_singleton] at hv
      subst hv
      exact absurd rfl (hother (name, w) hw)

/-- An entry under a name that is held adds nothing, and must have the value that is held. -/
theorem joins_cons_of_held {r : Registry α} {name : String} {held value : α}
    (h : r.find? name = some held) :
    Joins r.entries ((name, value) :: ys) us ↔ held = value ∧ Joins r.entries ys us := by
  have hmem := find?_eq_some_iff.1 h
  have heq : joined r.entries ((name, value) :: ys) = joined r.entries ys := by
    rw [joined, List.filter_cons_of_neg]
    · rfl
    · simpa using ⟨held, hmem⟩
  constructor
  · rintro ⟨hagree, hus⟩
    exact ⟨hagree name held value hmem List.mem_cons_self,
      fun n v w hv hw => hagree n v w hv (List.mem_cons_of_mem _ hw), hus.trans heq⟩
  · rintro ⟨rfl, hagree, hus⟩
    refine ⟨fun n v w hv hw => ?_, hus.trans heq.symm⟩
    rcases List.mem_cons.1 hw with hw | hw
    · cases hw
      -- the registry has one value under the name, so both are the one held
      have hfound := (find?_eq_some_iff.2 hv).symm.trans h
      exact Option.some.inj hfound
    · exact hagree n v w hv hw

theorem offerAll_eq_ok [DecidableEq α] : ∀ {entries : List (String × α)} {r u : Registry α},
    (entries.map Prod.fst).Nodup →
    (r.offerAll entries = .ok u ↔ Joins r.entries entries u.entries)
  | [], r, u, _ => by
    constructor
    · intro h
      cases h
      exact .nil _
    · intro h
      rw [Registry.ext (h.eq.trans (joined_nil _))]
      rfl
  | (name, value) :: entries, r, u, hdistinct => by
    rw [List.map_cons, List.nodup_cons] at hdistinct
    rw [offerAll, List.foldlM_cons]
    cases hfound : r.find? name with
    | none =>
      rw [offer_of_none hfound, ← joins_cons_of_free (find?_eq_none_iff.1 hfound) hdistinct.1]
      exact offerAll_eq_ok hdistinct.2
    | some held =>
      rw [offer_of_some hfound, joins_cons_of_held hfound]
      by_cases hvalue : held = value
      · rw [if_pos hvalue]
        simp only [hvalue, true_and]
        exact offerAll_eq_ok hdistinct.2
      · rw [if_neg hvalue]
        simp [hvalue, bind, Except.bind]

end Registry

/-! ### Tables -/

namespace SymbolTable

/-- `u` is what a merge makes of `t` and `other`. -/
structure Joins (t other u : SymbolTable) : Prop where
  scalars : ResourceMerge.Joins t.scalars.entries other.scalars.entries u.scalars.entries
  arrays : ResourceMerge.Joins t.arrays.entries other.arrays.entries u.arrays.entries

/-- A part of a table, the scalars or the arrays: an insertion offers to it, and to nothing else. -/
structure IsPart {β : Type} [DecidableEq β] (insert : String → β → Update Unit)
    (part : SymbolTable → Registry β) (put : SymbolTable → Registry β → SymbolTable) : Prop where
  insert_eq_ok : ∀ (name : String) (value : β) (t u : SymbolTable), insert name value t = .ok () u ↔
    ∃ r, (part t).offer name value = .ok r ∧ u = put t r
  part_put : ∀ t r, part (put t r) = r
  put_put : ∀ t r r', put (put t r) r' = put t r'
  put_part : ∀ t, put t (part t) = t

theorem scalars_isPart : IsPart insertScalar scalars fun t scalars => { t with scalars } where
  insert_eq_ok name value t u := by
    unfold insertScalar
    cases t.scalars.offer name value with
    | ok scalars => simp [eq_comm]
    | error held => simp
  part_put _ _ := rfl
  put_put _ _ _ := rfl
  put_part _ := rfl

theorem arrays_isPart : IsPart insertArray arrays fun t arrays => { t with arrays } where
  insert_eq_ok name values t u := by
    unfold insertArray
    cases t.arrays.offer name values with
    | ok arrays => simp [eq_comm]
    | error held => simp
  part_put _ _ := rfl
  put_put _ _ _ := rfl
  put_part _ := rfl

/-- Inserting entries changes their part of a table only, and to what the offers make of it. -/
theorem IsPart.forM_eq_ok {β : Type} [DecidableEq β] {insert : String → β → Update Unit}
    {part : SymbolTable → Registry β} {put : SymbolTable → Registry β → SymbolTable}
    (h : IsPart insert part put) : ∀ (entries : List (String × β)) (t u : SymbolTable),
      (entries.forM fun entry => insert entry.1 entry.2) t = .ok () u ↔
        ∃ r, (part t).offerAll entries = .ok r ∧ u = put t r
  | [], t, u => by
    constructor
    · rintro ⟨⟩
      exact ⟨part t, rfl, (h.put_part t).symm⟩
    · rintro ⟨_, ⟨⟩, rfl⟩
      rw [h.put_part]
      rfl
  | entry :: entries, t, u => by
    simp only [List.forM, bind_eq_ok, Registry.offerAll, List.foldlM_cons, Except.bind_eq_ok]
    constructor
    · rintro ⟨_, middle, hfirst, hrest⟩
      obtain ⟨first, hoffer, rfl⟩ := (h.insert_eq_ok _ _ _ _).1 hfirst
      obtain ⟨r, hall, rfl⟩ := (h.forM_eq_ok entries _ u).1 hrest
      rw [h.part_put] at hall
      exact ⟨r, ⟨first, hoffer, hall⟩, h.put_put t first r⟩
    · rintro ⟨r, ⟨first, hoffer, hall⟩, rfl⟩
      have hfirst := (h.insert_eq_ok _ _ _ _).2 ⟨first, hoffer, rfl⟩
      have hrest := (h.forM_eq_ok entries (put t first) (put t r)).2
        ⟨r, by rw [h.part_put]; exact hall, (h.put_put t first r).symm⟩
      exact ⟨(), put t first, hfirst, hrest⟩

/-- A merge succeeds exactly if the tables agree, and gives the joined table. -/
theorem merge_eq_ok {t other u : SymbolTable} : merge other t = .ok () u ↔ t.Joins other u := by
  rw [merge, bind_eq_ok]
  constructor
  · rintro ⟨_, middle, hfirst, hrest⟩
    obtain ⟨scalars, hscalars, rfl⟩ := (scalars_isPart.forM_eq_ok _ _ _).1 hfirst
    obtain ⟨arrays, harrays, rfl⟩ := (arrays_isPart.forM_eq_ok _ _ _).1 hrest
    exact ⟨(Registry.offerAll_eq_ok other.scalars.distinct).1 hscalars,
      (Registry.offerAll_eq_ok other.arrays.distinct).1 harrays⟩
  · rintro ⟨hscalars, harrays⟩
    have hscalars := (Registry.offerAll_eq_ok other.scalars.distinct).2 hscalars
    have harrays := (Registry.offerAll_eq_ok other.arrays.distinct).2 harrays
    exact ⟨(), { t with scalars := u.scalars },
      (scalars_isPart.forM_eq_ok _ _ _).2 ⟨u.scalars, hscalars, rfl⟩,
      (arrays_isPart.forM_eq_ok _ _ _).2 ⟨u.arrays, harrays, rfl⟩⟩

namespace Joins

variable {t other u : SymbolTable}

theorem empty (t : SymbolTable) : t.Joins .empty t := ⟨.nil _, .nil _⟩

theorem empty_left (t : SymbolTable) : SymbolTable.empty.Joins t t := ⟨.nil_left _, .nil_left _⟩

theorem assoc {third otherThird all : SymbolTable} (h : t.Joins other u)
    (h' : other.Joins third otherThird) (hall : u.Joins third all) : t.Joins otherThird all :=
  ⟨h.scalars.assoc h'.scalars hall.scalars, h.arrays.assoc h'.arrays hall.arrays⟩

end Joins

end SymbolTable

end ResourceMerge

import ResourceMerge.Proofs.MergeLaws

/-! Any calls on a table that is empty at first, with calls among them that fail. An insertion offers
    one entry. A merge offers entry after entry, scalars first, up to the first one that is refused,
    and keeps what it has added until then. Whatever the calls, a table holds under each name the
    value that was offered first, and lists the names in the order in which they were first offered;
    so nothing in it is ever moved or replaced. The invariant compares the table with the list of
    all offers made so far. It goes through a call because the entries of one call have different
    names, so that each of them meets the table as it was before the call. -/

namespace ResourceMerge

variable {α : Type}

namespace Registry

variable {r s : Registry α} {before behind entries offers more : List (String × α)} {name : String}
  {held value : α}

/-! ### The first offers -/

/-- Each name has the value that was offered first, and the names stand in the order in which they
    were first offered. -/
structure HoldsFirst (r : Registry α) (offers : List (String × α)) : Prop where
  names : r.entries.map Prod.fst = (offers.map Prod.fst).eraseDups
  values : ∀ name, r.find? name = offers.lookup name

theorem lookup_filter_of_notMem {xs ys : List (String × α)} {name : String}
    (hname : name ∉ xs.map Prod.fst) :
    (ys.filter fun entry => entry.1 ∉ xs.map Prod.fst).lookup name = ys.lookup name := by
  induction ys with
  | nil => rfl
  | cons entry ys ih =>
    obtain ⟨other, value⟩ := entry
    by_cases hother : name = other
    · subst hother
      rw [List.filter_cons_of_pos (by simpa using hname)]
      simp
    · rw [List.lookup_cons, beq_false_of_ne hother, ← ih]
      by_cases hheld : other ∈ xs.map Prod.fst
      · rw [List.filter_cons_of_neg (by simpa using hheld)]
      · rw [List.filter_cons_of_pos (by simpa using hheld), List.lookup_cons,
          beq_false_of_ne hother]

/-- Of joined entries the first ones count. -/
theorem lookup_joined (xs ys : List (String × α)) (name : String) :
    (joined xs ys).lookup name = (xs.lookup name).or (ys.lookup name) := by
  rw [joined, List.lookup_append]
  cases hfound : xs.lookup name with
  | some value => rfl
  | none => rw [lookup_filter_of_notMem (notMem_of_find?_eq_none hfound)]

theorem holdsFirst_empty : (empty : Registry α).HoldsFirst [] := ⟨rfl, fun _ => rfl⟩

/-- More offers, under different names, add those of them that are new. -/
theorem HoldsFirst.joined (h : r.HoldsFirst offers) (hmore : (more.map Prod.fst).Nodup)
    (hs : s.entries = joined r.entries more) : s.HoldsFirst (offers ++ more) where
  names := by
    have hnew : ((more.map Prod.fst).removeAll (offers.map Prod.fst)).Nodup :=
      hmore.sublist List.filter_sublist
    have hsame : (more.map Prod.fst).removeAll (offers.map Prod.fst).eraseDups
        = (more.map Prod.fst).removeAll (offers.map Prod.fst) :=
      List.filter_congr fun name _ => by simp
    rw [hs, names_joined, h.names, List.map_append, List.eraseDups_append, eraseDups_of_nodup hnew,
      hsame]
  values name := by
    have hr : r.entries.lookup name = offers.lookup name := h.values name
    rw [find?, hs, lookup_joined, hr, List.lookup_append]

/-- An entry whose name is held is not joined. -/
theorem joined_concat_of_held (hheld : r.find? name = some held) (value : α) :
    ResourceMerge.joined r.entries (before ++ [(name, value)])
      = ResourceMerge.joined r.entries before := by
  have hname : name ∈ r.entries.map Prod.fst :=
    List.mem_map_of_mem (f := Prod.fst) (find?_eq_some_iff.1 hheld)
  rw [ResourceMerge.joined, List.filter_append, List.filter_cons_of_neg (by simpa using hname),
    List.filter_nil, List.append_nil, ResourceMerge.joined]

/-! ### The offers of one call -/

variable [DecidableEq α]

/-- Is the name new, or the value the one that is held? -/
def accepts (r : Registry α) (entry : String × α) : Bool :=
  match r.find? entry.1 with
  | none => true
  | some held => held = entry.2

/-- The entries that are offered one after the other, the first one that is refused being the
    last. -/
def offered (r : Registry α) : List (String × α) → List (String × α)
  | [] => []
  | entry :: rest => entry :: if r.accepts entry then r.offered rest else []

theorem accepts_iff : r.accepts (name, value) = true ↔
    r.find? name = none ∨ r.find? name = some value := by
  unfold accepts
  cases r.find? name <;> simp

/-- A registry agrees with the entries each of which it accepts. -/
theorem all_accepts_iff : entries.all r.accepts = true ↔ Agree r.entries entries := by
  rw [List.all_eq_true]
  constructor
  · intro h name v w hv hw
    have hfound := find?_eq_some_iff.2 hv
    rcases accepts_iff.1 (h (name, w) hw) with hnone | hsame
    · rw [hfound] at hnone
      cases hnone
    · rw [hfound] at hsame
      exact Option.some.inj hsame
  · rintro h ⟨name, w⟩ hw
    rw [accepts_iff]
    cases hfound : r.find? name with
    | none => exact .inl rfl
    | some v => exact .inr (congrArg some (h name v w (find?_eq_some_iff.1 hfound) hw))

/-- All entries are offered if all are accepted. -/
theorem offered_of_agree (h : Agree r.entries entries) : r.offered entries = entries := by
  rw [← all_accepts_iff] at h
  induction entries with
  | nil => rfl
  | cons entry rest ih =>
    rw [List.all_cons, Bool.and_eq_true] at h
    rw [offered, if_pos h.1, ih h.2]

/-- Nothing is offered behind the first entry that is refused. -/
theorem offered_of_refused (h : Agree r.entries before) (hheld : r.find? name = some held)
    (hne : held ≠ value) :
    r.offered (before ++ (name, value) :: behind) = before ++ [(name, value)] := by
  rw [← all_accepts_iff] at h
  induction before with
  | nil =>
    have hrefused : ¬ r.accepts (name, value) = true := by
      simp [accepts_iff, hheld, hne]
    rw [List.nil_append, offered, if_neg hrefused, List.nil_append]
  | cons entry before ih =>
    rw [List.all_cons, Bool.and_eq_true] at h
    rw [List.cons_append, offered, if_pos h.1, ih h.2, List.cons_append]

theorem offered_isPrefix (r : Registry α) :
    ∀ entries : List (String × α), r.offered entries <+: entries
  | [] => List.prefix_rfl
  | entry :: rest => by
    rw [offered, List.prefix_cons_inj]
    split
    · exact r.offered_isPrefix rest
    · exact List.nil_prefix

theorem nodup_offered (r s : Registry α) : ((r.offered s.entries).map Prod.fst).Nodup :=
  s.distinct.sublist ((r.offered_isPrefix s.entries).sublist.map _)

end Registry

namespace SymbolTable

variable {t u other : SymbolTable} {e : Error}

/-! ### Calls -/

/-- A call on a table. -/
inductive Call where
  | insertScalar (name : String) (value : Int32)
  | insertArray (name : String) (values : List Int32)
  | merge (other : SymbolTable)

namespace Call

/-- What the call does to a table. -/
def perform : Call → Update Unit
  | .insertScalar name value => SymbolTable.insertScalar name value
  | .insertArray name values => SymbolTable.insertArray name values
  | .merge other => SymbolTable.merge other

/-- The entries that the call is about. -/
def table : Call → SymbolTable
  | .insertScalar name value => ⟨Registry.empty.add name value rfl, .empty⟩
  | .insertArray name values => ⟨.empty, Registry.empty.add name values rfl⟩
  | .merge other => other

/-- An insertion is a merge with a table of one entry. -/
theorem perform_eq_merge (call : Call) : call.perform = SymbolTable.merge call.table := by
  cases call with
  | insertScalar name value =>
    simp [perform, table, SymbolTable.merge, Registry.add, Registry.empty]
  | insertArray name values =>
    simp [perform, table, SymbolTable.merge, Registry.add, Registry.empty]
  | merge other => rfl

/-- The scalars that the call offers to a table. -/
def scalars (t : SymbolTable) (call : Call) : List (String × Int32) :=
  t.scalars.offered call.table.scalars.entries

/-- The arrays that the call offers to a table: none, if a scalar is refused. -/
def arrays (t : SymbolTable) (call : Call) : List (String × List Int32) :=
  if call.table.scalars.entries.all t.scalars.accepts then
    t.arrays.offered call.table.arrays.entries
  else []

/-- The table that the call leaves, also where it fails. -/
def leaves (t : SymbolTable) (call : Call) : SymbolTable :=
  match call.perform t with
  | .ok _ u | .error _ u => u

end Call

/-- The table that calls lead to, whichever of them fail. -/
def after (calls : List Call) : SymbolTable := calls.foldl Call.leaves .empty

/-- The scalars that calls offer one after the other, the first of them to the table `t`. -/
def scalarOffers (t : SymbolTable) : List Call → List (String × Int32)
  | [] => []
  | call :: rest => call.scalars t ++ scalarOffers (call.leaves t) rest

/-- The arrays that calls offer. -/
def arrayOffers (t : SymbolTable) : List Call → List (String × List Int32)
  | [] => []
  | call :: rest => call.arrays t ++ arrayOffers (call.leaves t) rest

/-! ### One call -/

/-- A call adds those of its offers that are new. -/
theorem Call.joined_leaves (t : SymbolTable) (call : Call) :
    (call.leaves t).scalars.entries = joined t.scalars.entries (call.scalars t) ∧
      (call.leaves t).arrays.entries = joined t.arrays.entries (call.arrays t) := by
  unfold Call.leaves Call.scalars Call.arrays
  rw [call.perform_eq_merge]
  cases hmerge : SymbolTable.merge call.table t with
  | ok _ u =>
    obtain ⟨hscalars, harrays⟩ := merge_eq_ok.1 hmerge
    rw [Registry.offered_of_agree hscalars.agree, if_pos (Registry.all_accepts_iff.2 hscalars.agree),
      Registry.offered_of_agree harrays.agree]
    exact ⟨hscalars.eq, harrays.eq⟩
  | error e u =>
    cases stops_of_merge hmerge with
    | scalar hentries hheld hne hscalars harrays =>
      have hrefused : ¬ call.table.scalars.entries.all t.scalars.accepts = true := by
        rw [hentries]
        simp [Registry.accepts_iff, hheld, hne]
      rw [hentries] at hrefused ⊢
      rw [Registry.offered_of_refused hscalars.agree hheld hne, if_neg hrefused,
        Registry.joined_concat_of_held hheld, joined_nil, harrays]
      exact ⟨hscalars.eq, rfl⟩
    | array hentries hheld hne hscalars harrays =>
      rw [hentries, Registry.offered_of_agree hscalars.agree,
        if_pos (Registry.all_accepts_iff.2 hscalars.agree),
        Registry.offered_of_refused harrays.agree hheld hne, Registry.joined_concat_of_held hheld]
      exact ⟨hscalars.eq, harrays.eq⟩

/-- The entries of a table are there in a later one, at their places and with their values. -/
structure Extends (t u : SymbolTable) : Prop where
  scalars : t.scalars.entries <+: u.scalars.entries
  arrays : t.arrays.entries <+: u.arrays.entries

theorem Extends.refl (t : SymbolTable) : t.Extends t := ⟨List.prefix_rfl, List.prefix_rfl⟩

theorem Extends.trans {v : SymbolTable} (h : t.Extends u) (h' : u.Extends v) : t.Extends v :=
  ⟨h.scalars.trans h'.scalars, h.arrays.trans h'.arrays⟩

theorem Call.extends_leaves (t : SymbolTable) (call : Call) : t.Extends (call.leaves t) := by
  obtain ⟨hscalars, harrays⟩ := call.joined_leaves t
  exact ⟨hscalars ▸ List.prefix_append _ _, harrays ▸ List.prefix_append _ _⟩

/-! ### Any number of calls -/

theorem extends_foldl : ∀ (calls : List Call) (t : SymbolTable),
    t.Extends (calls.foldl Call.leaves t)
  | [], t => .refl t
  | call :: rest, t => (call.extends_leaves t).trans (extends_foldl rest (call.leaves t))

/-- The invariant: all offers made so far, the first of which count. -/
theorem holdsFirst_foldl : ∀ (calls : List Call) (t : SymbolTable)
    (scalars : List (String × Int32)) (arrays : List (String × List Int32)),
    t.scalars.HoldsFirst scalars → t.arrays.HoldsFirst arrays →
    (calls.foldl Call.leaves t).scalars.HoldsFirst (scalars ++ scalarOffers t calls) ∧
      (calls.foldl Call.leaves t).arrays.HoldsFirst (arrays ++ arrayOffers t calls)
  | [], t, scalars, arrays, hscalars, harrays => by
    rw [scalarOffers, arrayOffers, List.append_nil, List.append_nil]
    exact ⟨hscalars, harrays⟩
  | call :: rest, t, scalars, arrays, hscalars, harrays => by
    obtain ⟨hs, ha⟩ := call.joined_leaves t
    have hdistinct : ((call.arrays t).map Prod.fst).Nodup := by
      unfold Call.arrays
      split
      · exact t.arrays.nodup_offered _
      · exact List.nodup_nil
    have hnext := holdsFirst_foldl rest _ _ _
      (hscalars.joined (t.scalars.nodup_offered _) hs) (harrays.joined hdistinct ha)
    rwa [List.append_assoc, List.append_assoc] at hnext

/-! ### The next call -/

section Insertion

variable {β : Type} [DecidableEq β] {insert : String → β → Update Unit}
  {part : SymbolTable → Registry β} {put : SymbolTable → Registry β → SymbolTable}
  {shown : β → SymbolValue} {name : String} {value : β}

/-- An insertion is taken exactly if the name is new or has the value. -/
theorem IsPart.insert_succeeds_iff (h : IsPart insert part put) :
    (∃ u, insert name value t = .ok () u) ↔
      (part t).find? name = none ∨ (part t).find? name = some value := by
  simp only [h.insert_eq_ok]
  cases hfound : (part t).find? name with
  | none => simp [Registry.offer_of_none hfound]
  | some held =>
    rw [Registry.offer_of_some hfound]
    by_cases hvalue : held = value <;> simp [hvalue]

/-- An insertion that fails changes nothing. -/
theorem IsPart.table_of_insert (h : IsPart insert part put) (hrefuses : Refuses insert part shown)
    (hfails : insert name value t = .error e u) : u = t := by
  have hnot : ¬ ∃ u, insert name value t = .ok () u := by
    rintro ⟨v, hok⟩
    rw [hfails] at hok
    cases hok
  rw [h.insert_succeeds_iff, not_or] at hnot
  obtain ⟨held, hheld⟩ := Option.ne_none_iff_exists'.1 hnot.1
  have hne : held ≠ value := fun heq => hnot.2 (hheld.trans (congrArg some heq))
  rw [hrefuses name held value t hheld hne] at hfails
  cases hfails
  rfl

end Insertion

/-- After any calls, some of which may have failed, a table holds under each name the value that was
    offered for it first, in the order of the first offers, and every entry that it held at some
    time it holds at the same place with the same value. An insertion succeeds exactly if the name
    is new or has the value, and changes nothing otherwise. A merge succeeds exactly if the tables
    agree, and otherwise adds the new ones of the entries before the first one that differs. -/
theorem calls_keep_first_offers (calls : List Call) :
    (after calls).scalars.HoldsFirst (scalarOffers .empty calls) ∧
    (after calls).arrays.HoldsFirst (arrayOffers .empty calls) ∧
    (∀ earlier later, calls = earlier ++ later → (after earlier).Extends (after calls)) ∧
    (∀ name value, (∃ u, insertScalar name value (after calls) = .ok () u) ↔
      (after calls).scalar? name = none ∨ (after calls).scalar? name = some value) ∧
    (∀ name values, (∃ u, insertArray name values (after calls) = .ok () u) ↔
      (after calls).array? name = none ∨ (after calls).array? name = some values) ∧
    (∀ name value e u, insertScalar name value (after calls) = .error e u → u = after calls) ∧
    (∀ name values e u, insertArray name values (after calls) = .error e u → u = after calls) ∧
    (∀ other, (∃ u, merge other (after calls) = .ok () u) ↔ (after calls).Agrees other) ∧
    ∀ other e u, merge other (after calls) = .error e u → (after calls).Stops other e u := by
  obtain ⟨hscalars, harrays⟩ := holdsFirst_foldl calls .empty [] []
    Registry.holdsFirst_empty Registry.holdsFirst_empty
  refine ⟨hscalars, harrays, ?_, fun _ _ => scalars_isPart.insert_succeeds_iff,
    fun _ _ => arrays_isPart.insert_succeeds_iff,
    fun _ _ _ _ => scalars_isPart.table_of_insert scalars_refuse,
    fun _ _ _ _ => arrays_isPart.table_of_insert arrays_refuse,
    fun _ => merge_succeeds_iff, fun _ _ _ => stops_of_merge⟩
  rintro earlier later rfl
  rw [after, after, List.foldl_append]
  exact extends_foldl later _

/-- An insertion that is refused, a merge that stops at its second array, and insertions of what that
    merge would have offered next. -/
def sampleCalls : List Call :=
  [.insertScalar "x" 1, .insertScalar "x" 2, .insertArray "p" [7],
    .merge ⟨⟨[("y", 3), ("x", 1)], by decide⟩,
      ⟨[("q", []), ("p", [8]), ("r", [5])], by decide⟩⟩,
    .insertArray "r" [6], .insertArray "r" [5], .insertScalar "z" 4]

theorem calls_keep_first_offers_sample :
    arrayOffers .empty sampleCalls
        = [("p", [7]), ("q", []), ("p", [8]), ("r", [6]), ("r", [5])] ∧
      (after sampleCalls).arrays.entries.map Prod.fst = ["p", "q", "r"] ∧
      (after sampleCalls).scalar? "x" = some 1 ∧ (after sampleCalls).array? "p" = some [7] ∧
      (after sampleCalls).array? "r" = some [6] ∧
      ∃ u, insertArray "r" [6] (after sampleCalls) = .ok () u := by
  obtain ⟨hscalars, harrays, -, -, hinsert, -⟩ := calls_keep_first_offers sampleCalls
  have hr : (after sampleCalls).array? "r" = some [6] := (harrays.values "r").trans (by decide)
  exact ⟨by decide, harrays.names.trans (by decide), (hscalars.values "x").trans (by decide),
    (harrays.values "p").trans (by decide), hr, (hinsert "r" [6]).2 (.inr hr)⟩

end SymbolTable

end ResourceMerge

import ResourceMerge.Proofs.Joining

/-! The same entries inserted into two tables, one of which holds all that the other one holds. What
    succeeds on the larger table succeeds on the smaller one. If the smaller one takes all entries,
    only the first entry of each name matters to the larger one, and those are the entries that the
    smaller one has gained: inserting them instead makes the same table or meets the same conflict
    with the same table left behind. -/

namespace ResourceMerge

/-- Every name has in `s` the value that it has in `r`. -/
def Registry.Within {α : Type} (r s : Registry α) : Prop :=
  ∀ name value, r.find? name = some value → s.find? name = some value

theorem Registry.within_of_nil {α : Type} {r s : Registry α} (h : r.entries = []) : r.Within s := by
  intro name value hheld
  rw [find?_eq_some_iff, h] at hheld
  cases hheld

namespace SymbolTable

variable {β : Type} [DecidableEq β] {insert : String → β → Update Unit}
  {part : SymbolTable → Registry β} {put : SymbolTable → Registry β → SymbolTable}
  {t u q p : SymbolTable} {name : String} {value : β}

namespace IsPart

/-! ### One entry -/

/-- The value that is held is accepted and changes nothing. -/
theorem insert_held (h : IsPart insert part put) (hheld : (part t).find? name = some value) :
    insert name value t = .ok () t := by
  refine (h.insert_eq_ok name value t t).2 ⟨part t, ?_, (h.put_part t).symm⟩
  rw [Registry.offer_of_some hheld, if_pos rfl]

/-- An insertion that succeeds confirms what is held or adds an entry behind all others. -/
theorem insert_cases (h : IsPart insert part put) (hok : insert name value t = .ok () u) :
    (part t).find? name = some value ∧ u = t ∨
      (part t).find? name = none ∧ (part u).entries = (part t).entries ++ [(name, value)] := by
  obtain ⟨r, hoffer, rfl⟩ := (h.insert_eq_ok name value t u).1 hok
  cases hfound : (part t).find? name with
  | none =>
    rw [Registry.offer_of_none hfound] at hoffer
    cases hoffer
    exact .inr ⟨rfl, by rw [h.part_put]; rfl⟩
  | some held =>
    rw [Registry.offer_of_some hfound] at hoffer
    split at hoffer
    · rename_i hsame
      cases hoffer
      exact .inl ⟨congrArg some hsame, h.put_part t⟩
    · cases hoffer

/-- Afterwards the name has the value, and every other name has what it had. -/
theorem find?_of_insert (h : IsPart insert part put) (hok : insert name value t = .ok () u)
    (other : String) (w : β) : (part u).find? other = some w ↔
      (part t).find? other = some w ∨ other = name ∧ w = value := by
  rcases h.insert_cases hok with ⟨hheld, rfl⟩ | ⟨-, hentries⟩
  · constructor
    · exact .inl
    · rintro (hw | ⟨rfl, rfl⟩)
      · exact hw
      · exact hheld
  · simp [Registry.find?_eq_some_iff, hentries]

theorem within_of_insert (h : IsPart insert part put) (hwithin : (part q).Within (part t))
    (hq : insert name value q = .ok () p) (ht : insert name value t = .ok () u) :
    (part p).Within (part u) := by
  intro other w hw
  rw [h.find?_of_insert ht]
  exact ((h.find?_of_insert hq other w).1 hw).imp (hwithin other w) id

/-- What the larger table takes the smaller one takes. -/
theorem insert_of_within (h : IsPart insert part put) (hwithin : (part q).Within (part t))
    (ht : insert name value t = .ok () u) : ∃ p, insert name value q = .ok () p := by
  cases hfound : (part q).find? name with
  | none =>
    exact ⟨_, (h.insert_eq_ok name value q _).2 ⟨_, Registry.offer_of_none hfound value, rfl⟩⟩
  | some held =>
    have hvalue : held = value := by
      rcases h.insert_cases ht with ⟨hheld, -⟩ | ⟨hfree, -⟩
      · exact Option.some.inj ((hwithin name held hfound).symm.trans hheld)
      · rw [hwithin name held hfound] at hfree
        cases hfree
    exact ⟨q, h.insert_held (hvalue ▸ hfound)⟩

/-! ### Any number of entries -/

theorem forM_of_within (h : IsPart insert part put) : ∀ {entries : List (String × β)}
    {q t u : SymbolTable}, (part q).Within (part t) →
    (entries.forM fun entry => insert entry.1 entry.2) t = .ok () u →
    ∃ p, (entries.forM fun entry => insert entry.1 entry.2) q = .ok () p
  | [], q, _, _, _, _ => ⟨q, rfl⟩
  | entry :: entries, q, t, u, hwithin, hok => by
    obtain ⟨_, middle, hfirst, hrest⟩ := bind_eq_ok.1 hok
    obtain ⟨next, hnext⟩ := h.insert_of_within hwithin hfirst
    obtain ⟨p, hp⟩ := h.forM_of_within (h.within_of_insert hwithin hnext hfirst) hrest
    exact ⟨p, bind_eq_ok.2 ⟨(), next, hnext, hp⟩⟩

/-- Where the smaller table takes all entries, the larger one sees only those that the smaller one
    gains. -/
theorem forM_eq_forM_new (h : IsPart insert part put) : ∀ {entries : List (String × β)}
    {q p : SymbolTable}, (entries.forM fun entry => insert entry.1 entry.2) q = .ok () p →
    ∃ new, (part p).entries = (part q).entries ++ new ∧
      ∀ t, (part q).Within (part t) → (entries.forM fun entry => insert entry.1 entry.2) t
        = (new.forM fun entry => insert entry.1 entry.2) t
  | [], q, p, hok => by
    cases hok
    exact ⟨[], (List.append_nil _).symm, fun _ _ => rfl⟩
  | (name, value) :: entries, q, p, hok => by
    obtain ⟨_, middle, hfirst, hrest⟩ := bind_eq_ok.1 hok
    obtain ⟨new, hnew, hsame⟩ := h.forM_eq_forM_new hrest
    rcases h.insert_cases hfirst with ⟨hheld, rfl⟩ | ⟨-, hentries⟩
    · refine ⟨new, hnew, fun t hwithin => ?_⟩
      rw [List.forM, ← hsame t hwithin]
      simp only [Bind.bind, EStateM.bind, h.insert_held (hwithin name value hheld)]
    · refine ⟨(name, value) :: new, by rw [hnew, hentries, List.append_assoc]; rfl,
        fun t hwithin => ?_⟩
      -- the entry is new to the smaller table, so both lists begin with it
      rw [List.forM, List.forM]
      simp only [Bind.bind, EStateM.bind]
      cases hinsert : insert name value t with
      | error e u => rfl
      | ok _ u => exact hsame u (h.within_of_insert hwithin hfirst hinsert)

/-- In particular, where a table without entries in this part takes all. -/
theorem forM_eq_forM_entries (h : IsPart insert part put) {entries : List (String × β)}
    (hnil : (part q).entries = [])
    (hok : (entries.forM fun entry => insert entry.1 entry.2) q = .ok () p) (t : SymbolTable) :
    (entries.forM fun entry => insert entry.1 entry.2) t
      = ((part p).entries.forM fun entry => insert entry.1 entry.2) t := by
  obtain ⟨new, hnew, hsame⟩ := h.forM_eq_forM_new hok
  rw [hnew, hnil, List.nil_append]
  exact hsame t (Registry.within_of_nil hnil)

end IsPart

/-! ### Both parts -/

/-- An array that is refused leaves the table as it was. -/
theorem table_of_insertArray {values : List Int32} {e : Error}
    (h : insertArray name values t = .error e u) : u = t := by
  unfold insertArray at h
  split at h
  · cases h
  · exact (EStateM.Result.error.inj h).2.symm

/-- Inserting scalars leaves the arrays alone. -/
theorem arrays_of_forM {entries : List (String × Int32)}
    (h : (entries.forM fun entry => insertScalar entry.1 entry.2) t = .ok () u) :
    u.arrays = t.arrays := by
  obtain ⟨r, -, rfl⟩ := (scalars_isPart.forM_eq_ok entries t u).1 h
  rfl

/-- Inserting arrays leaves the scalars alone. -/
theorem scalars_of_forM {entries : List (String × List Int32)}
    (h : (entries.forM fun entry => insertArray entry.1 entry.2) t = .ok () u) :
    u.scalars = t.scalars := by
  obtain ⟨r, -, rfl⟩ := (arrays_isPart.forM_eq_ok entries t u).1 h
  rfl

/-- Inserts scalars and then arrays. -/
def insertBoth (scalars : List (String × Int32)) (arrays : List (String × List Int32)) :
    Update Unit := do
  scalars.forM fun entry => insertScalar entry.1 entry.2
  arrays.forM fun entry => insertArray entry.1 entry.2

variable {scalars : List (String × Int32)} {arrays : List (String × List Int32)}

/-- Where the empty table takes all entries, a table is changed by them as by a merge with what the
    empty table becomes. -/
theorem insertBoth_eq_merge (h : insertBoth scalars arrays .empty = .ok () p) (t : SymbolTable) :
    insertBoth scalars arrays t = merge p t := by
  obtain ⟨_, middle, hfirst, hrest⟩ := bind_eq_ok.1 h
  have hscalars := scalars_isPart.forM_eq_forM_entries rfl hfirst
  have hnil : middle.arrays.entries = [] := by
    rw [arrays_of_forM hfirst]
    rfl
  have harrays := arrays_isPart.forM_eq_forM_entries hnil hrest
  have hsame : p.scalars = middle.scalars := scalars_of_forM hrest
  rw [insertBoth, merge, hsame]
  simp only [Bind.bind, EStateM.bind, hscalars, harrays]

/-- What some table takes the empty table takes. -/
theorem insertBoth_empty (h : insertBoth scalars arrays t = .ok () u) :
    ∃ p, insertBoth scalars arrays .empty = .ok () p := by
  obtain ⟨_, middle, hfirst, hrest⟩ := bind_eq_ok.1 h
  obtain ⟨next, hnext⟩ := scalars_isPart.forM_of_within (q := empty)
    (Registry.within_of_nil rfl) hfirst
  have hnil : next.arrays.entries = [] := by
    rw [arrays_of_forM hnext]
    rfl
  obtain ⟨p, hp⟩ := arrays_isPart.forM_of_within (Registry.within_of_nil hnil) hrest
  exact ⟨p, bind_eq_ok.2 ⟨(), next, hnext, hp⟩⟩

/-! ### Changes that do not look at the table -/

variable {α : Type} {x : Update α} {a : α} {e : Error}

/-- Inserts scalars and then arrays, and ends as told. -/
def insertThen (scalars : List (String × Int32)) (arrays : List (String × List Int32))
    (ending : Except Error α) : Update α := do
  insertBoth scalars arrays
  match ending with
  | .ok a => return a
  | .error e => throw e

/-- A change that offers the same entries to every table and then ends in the same way, unless the
    table refuses an entry. -/
def Offering (x : Update α) : Prop := ∃ scalars arrays ending, x = insertThen scalars arrays ending

namespace Offering

/-- Such a change does to a table what a merge with its own table does. -/
theorem eq_merge (hx : Offering x) (h : x .empty = .ok a p) (t : SymbolTable) :
    x t = match merge p t with
      | .ok _ u => .ok a u
      | .error e u => .error e u := by
  obtain ⟨scalars, arrays, ending, rfl⟩ := hx
  obtain ⟨_, table, hboth, hending⟩ := bind_eq_ok.1 h
  cases ending with
  | error e => cases hending
  | ok a =>
    cases hending
    rw [← insertBoth_eq_merge hboth t, insertThen]
    simp only [Bind.bind, EStateM.bind]
    cases insertBoth scalars arrays t <;> rfl

/-- A change that has no table of its own succeeds on no table. -/
theorem fails (hx : Offering x) (h : x .empty = .error e p) (t : SymbolTable) :
    ∃ e' u, x t = .error e' u := by
  cases ht : x t with
  | error e' u => exact ⟨e', u, rfl⟩
  | ok a u =>
    obtain ⟨scalars, arrays, ending, rfl⟩ := hx
    obtain ⟨_, middle, hboth, hending⟩ := bind_eq_ok.1 ht
    obtain ⟨table, htable⟩ := insertBoth_empty hboth
    cases ending with
    | error e => cases hending
    | ok a =>
      have hok : insertThen scalars arrays (.ok a) .empty = .ok a table :=
        bind_eq_ok.2 ⟨(), table, htable, rfl⟩
      rw [hok] at h
      cases h

end Offering

end SymbolTable

end ResourceMerge

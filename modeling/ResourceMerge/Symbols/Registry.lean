/-! Named values in the order in which their names were first given. A name keeps the first value it
    is given; giving it the same value again changes nothing, and giving it another one is refused
    with the value already held. No operation removes, moves or replaces an entry. -/

namespace ResourceMerge

/-- Values under distinct names, in order. -/
structure Registry (α : Type) where
  entries : List (String × α)
  distinct : (entries.map Prod.fst).Nodup

namespace Registry

variable {α : Type}

@[ext] theorem ext {r s : Registry α} (h : r.entries = s.entries) : r = s := by
  cases r; cases s; simp_all

instance [DecidableEq α] : DecidableEq (Registry α) := fun r s =>
  decidable_of_iff (r.entries = s.entries) ⟨ext, congrArg entries⟩

/-- No names at all. -/
def empty : Registry α := ⟨[], List.nodup_nil⟩

instance : Inhabited (Registry α) := ⟨empty⟩

/-- The value of a name. -/
def find? (r : Registry α) (name : String) : Option α := r.entries.lookup name

@[simp] theorem find?_empty (name : String) : (empty : Registry α).find? name = none := rfl

/-- Names are distinct, so what is found under a name is all that is entered under it. -/
theorem find?_eq_some_iff {r : Registry α} {name : String} {value : α} :
    r.find? name = some value ↔ (name, value) ∈ r.entries := by
  rw [find?, List.lookup_eq_some_iff]
  constructor
  · rintro ⟨before, behind, h, -⟩
    rw [h]
    exact List.mem_append_right before List.mem_cons_self
  · intro h
    obtain ⟨before, behind, hsplit⟩ := List.append_of_mem h
    have hdistinct := r.distinct
    rw [hsplit, List.map_append, List.map_cons, List.nodup_append] at hdistinct
    refine ⟨before, behind, hsplit, fun entry hentry => bne_iff_ne.2 fun hname => ?_⟩
    exact hdistinct.2.2 _ (List.mem_map_of_mem hentry) _ List.mem_cons_self hname.symm

/-- A name without a value is not among the names held. -/
theorem notMem_of_find?_eq_none {entries : List (String × α)} {name : String}
    (h : entries.lookup name = none) : name ∉ entries.map Prod.fst := by
  intro hmem
  obtain ⟨entry, hentry, rfl⟩ := List.mem_map.1 hmem
  exact bne_iff_ne.1 (List.lookup_eq_none_iff.1 h entry hentry) rfl

/-- A new name, behind all others. -/
def add (r : Registry α) (name : String) (value : α) (fresh : r.find? name = none) :
    Registry α where
  entries := r.entries ++ [(name, value)]
  distinct := by
    rw [List.map_append, List.nodup_append]
    refine ⟨r.distinct, by simp, ?_⟩
    intro a ha b hb hab
    have hname : a = name := by simpa [hab] using hb
    exact notMem_of_find?_eq_none fresh (hname ▸ ha)

/-- A value offered for a name: taken if the name is new, accepted if it is the value held, and
    refused with the value held otherwise. -/
def offer [DecidableEq α] (r : Registry α) (name : String) (value : α) :
    Except α (Registry α) :=
  match h : r.find? name with
  | none => .ok (r.add name value h)
  | some held => if held = value then .ok r else .error held

/-- A new name is taken. -/
theorem offer_of_none [DecidableEq α] {r : Registry α} {name : String} (h : r.find? name = none)
    (value : α) : r.offer name value = .ok (r.add name value h) := by
  unfold offer
  split
  · rfl
  · rename_i heq
    simp [h] at heq

/-- A name that has a value changes nothing. -/
theorem offer_of_some [DecidableEq α] {r : Registry α} {name : String} {held : α}
    (h : r.find? name = some held) (value : α) :
    r.offer name value = if held = value then .ok r else .error held := by
  unfold offer
  split
  · rename_i heq
    simp [h] at heq
  · rename_i heq
    rw [h] at heq
    cases heq
    rfl

/-- How many names there are. -/
def size (r : Registry α) : Nat := r.entries.length

/-- Do two registries hold the same values under the same names, in whatever order? -/
def sameEntries [DecidableEq α] (r s : Registry α) : Bool :=
  r.size == s.size && r.entries.all fun entry => s.find? entry.1 == some entry.2

end Registry

end ResourceMerge

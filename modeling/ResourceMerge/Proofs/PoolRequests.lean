import ResourceMerge.ClassFile.PoolDraft
import ResourceMerge.Proofs.PoolLookup

/-! Requests to a constant pool under construction, told by the pool that a reader will make of it
    (`frozen`). A request only ever adds entries behind those that are there, whether it succeeds or
    fails, so what a slot means once it means for good. Each request that succeeds answers a slot
    under which the frozen pool gives back what was asked for. -/

namespace ResourceMerge

/-- The entries that requests put into a pool. All of them have a form in a class file. -/
def Constant.IsWritable : Constant → Prop
  | .utf8 text => text.utf8ByteSize ≤ 65535
  | .integer _ | .classRef _ | .fieldRef _ _ | .nameAndType _ _ => True
  | _ => False

namespace PoolDraft

variable {draft later : PoolDraft} {i : UInt16}

/-- The pool that a reader makes of the draft. -/
def frozen (draft : PoolDraft) : ConstantPool :=
  ⟨(none :: draft.entries.toList.map some).toArray⟩

theorem frozen_get {c : Constant} :
    draft.frozen.get i = .ok c ↔ ∃ k, i.toNat = k + 1 ∧ draft.entries.toList[k]? = some c := by
  rw [ConstantPool.get_eq_ok, frozen]
  cases i.toNat <;> simp

/-- `later` has the entries of `draft` in their slots, and more of the same kind. -/
structure Grows (draft later : PoolDraft) : Prop where
  entries : draft.entries.toList <+: later.entries.toList
  writable : (∀ c ∈ draft.entries.toList, c.IsWritable) → ∀ c ∈ later.entries.toList, c.IsWritable

namespace Grows

theorem refl (draft : PoolDraft) : draft.Grows draft := ⟨List.prefix_rfl, id⟩

theorem trans {last : PoolDraft} (h : draft.Grows later) (h' : later.Grows last) :
    draft.Grows last :=
  ⟨h.entries.trans h'.entries, h'.writable ∘ h.writable⟩

/-- A slot keeps what it means. -/
theorem within (h : draft.Grows later) : draft.frozen.Within later.frozen := by
  intro i c hc
  obtain ⟨k, hi, hk⟩ := frozen_get.1 hc
  obtain ⟨hlt, rfl⟩ := List.getElem?_eq_some_iff.1 hk
  exact frozen_get.2 ⟨k, hi, List.prefix_iff_getElem?.1 h.entries k hlt⟩

end Grows

/-! ### One entry -/

/-- What a new entry does to the draft. -/
theorem add_grows {c : Constant} (fresh : draft.index[c]? = none)
    (room : draft.entries.size < 65533) (hc : c.IsWritable) : draft.Grows (draft.add c fresh room) := by
  have hentries : (draft.add c fresh room).entries.toList = draft.entries.toList ++ [c] := by
    simp [add]
  refine ⟨hentries ▸ List.prefix_append .., fun h c' hc' => ?_⟩
  rw [hentries, List.mem_append, List.mem_singleton] at hc'
  rcases hc' with hc' | rfl
  · exact h c' hc'
  · exact hc

/-- An entry is answered by its slot, new or old; a full pool is left as it was. -/
theorem intern_ends {c : Constant} (hc : c.IsWritable) (draft : PoolDraft) :
    Ends (intern c) draft (fun i later => draft.Grows later ∧ later.frozen.get i = .ok c)
      (fun e later => e = .format .poolFull ∧ later = draft) := by
  unfold Ends intern
  split
  · rename_i heq
    split at heq
    · rename_i k hk
      cases heq
      have hslot : draft.entries[k]? = some c := (draft.index_iff c k).1 hk
      have hk' : k < draft.entries.size := (Array.getElem?_eq_some_iff.1 hslot).1
      have := draft.size_le
      refine ⟨.refl draft, frozen_get.2 ⟨k, ?_, by simpa using hslot⟩⟩
      rw [UInt16.toNat_ofNat']
      omega
    · rename_i fresh
      split at heq
      · rename_i room
        cases heq
        exact ⟨add_grows fresh room hc,
          frozen_get.2 ⟨draft.entries.size, draft.count_toNat, by simp [add]⟩⟩
      · cases heq
  · rename_i heq
    split at heq
    · cases heq
    · split at heq
      · cases heq
      · cases heq
        exact ⟨rfl, rfl⟩

/-! ### Requests -/

theorem utf8_ends (text : String) (draft : PoolDraft) :
    Ends (utf8 text) draft (fun i later => draft.Grows later ∧ later.frozen.utf8 i = .ok text)
      (fun _ later => draft.Grows later) := by
  unfold utf8
  split
  · exact .throw (.refl draft)
  · rename_i h
    refine (intern_ends (c := .utf8 text) (by simpa [Constant.IsWritable] using h) draft).mono ?_ ?_
    · rintro i later ⟨hgrows, hget⟩
      exact ⟨hgrows, ConstantPool.utf8_eq_ok.2 hget⟩
    · rintro e later ⟨-, rfl⟩
      exact .refl _

theorem integer_ends (v : Int32) (draft : PoolDraft) :
    Ends (integer v) draft
      (fun i later => draft.Grows later ∧ later.frozen.integer? i = .ok (some v))
      (fun _ later => draft.Grows later) := by
  refine (intern_ends (c := .integer v) trivial draft).mono ?_ ?_
  · rintro i later ⟨hgrows, hget⟩
    exact ⟨hgrows, ConstantPool.integer?_eq_some.2 hget⟩
  · rintro e later ⟨-, rfl⟩
    exact .refl _

theorem classRef_ends (name : String) (draft : PoolDraft) :
    Ends (classRef name) draft
      (fun i later => draft.Grows later ∧ later.frozen.className i = .ok name)
      (fun _ later => draft.Grows later) := by
  refine (utf8_ends name draft).andThen ?_ fun _ _ h => h
  rintro n middle ⟨hgrows, hname⟩
  refine (intern_ends (c := .classRef n) trivial middle).mono ?_ ?_
  · rintro i later ⟨hgrows', hget⟩
    exact ⟨hgrows.trans hgrows', ConstantPool.className_eq_ok.2 ⟨n, hget, hgrows'.within.utf8 hname⟩⟩
  · rintro e later ⟨-, rfl⟩
    exact hgrows

theorem nameAndType_ends (name descriptor : String) (draft : PoolDraft) :
    Ends (nameAndType name descriptor) draft
      (fun i later => draft.Grows later ∧ ∃ n d, later.frozen.get i = .ok (.nameAndType n d) ∧
        later.frozen.utf8 n = .ok name ∧ later.frozen.utf8 d = .ok descriptor)
      (fun _ later => draft.Grows later) := by
  refine (utf8_ends name draft).andThen ?_ fun _ _ h => h
  rintro n first ⟨hfirst, hname⟩
  refine (utf8_ends descriptor first).andThen ?_ fun _ _ h => hfirst.trans h
  rintro d second ⟨hsecond, hdescriptor⟩
  refine (intern_ends (c := .nameAndType n d) trivial second).mono ?_ ?_
  · rintro i later ⟨hlater, hget⟩
    exact ⟨(hfirst.trans hsecond).trans hlater, n, d, hget,
      (hsecond.trans hlater).within.utf8 hname, hlater.within.utf8 hdescriptor⟩
  · rintro e later ⟨-, rfl⟩
    exact hfirst.trans hsecond

theorem fieldRef_ends (field : FieldRef) (draft : PoolDraft) :
    Ends (fieldRef field) draft
      (fun i later => draft.Grows later ∧ later.frozen.field i = .ok field)
      (fun _ later => draft.Grows later) := by
  refine (classRef_ends field.owner draft).andThen ?_ fun _ _ h => h
  rintro o first ⟨hfirst, howner⟩
  refine (nameAndType_ends field.name field.descriptor first).andThen ?_
    fun _ _ h => hfirst.trans h
  rintro nt second ⟨hsecond, n, d, hnt, hname, hdescriptor⟩
  refine (intern_ends (c := .fieldRef o nt) trivial second).mono ?_ ?_
  · rintro i later ⟨hlater, hget⟩
    have hwithin := hlater.within
    exact ⟨(hfirst.trans hsecond).trans hlater, ConstantPool.field_eq_ok.2
      ⟨o, nt, n, d, hget, hwithin _ _ hnt, (hsecond.trans hlater).within.className howner,
        hwithin.utf8 hname, hwithin.utf8 hdescriptor⟩⟩
  · rintro e later ⟨-, rfl⟩
    exact hfirst.trans hsecond

end PoolDraft

end ResourceMerge

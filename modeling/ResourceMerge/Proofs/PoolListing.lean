import Mathlib.Data.List.Forall2
import ResourceMerge.Proofs.PoolItems

/-! What requests do to a constant pool under construction, told by its items. The invariant is that
    the entries of the pool are those of a list of items, in its order. A request asks for the parts
    of its item one after the other, the item itself last, and does to the list what that says: a
    part that is there is found, a new part goes behind all others, and the request ends where a
    text is too long or the pool is full. -/

namespace ResourceMerge.PoolDraft

variable {α β : Type} {draft later : PoolDraft} {items : List Item} {item : Item} {c : Constant}
  {i : UInt16}

/-! ### Entries and their slots -/

theorem frozen_distinct (draft : PoolDraft) : Item.Distinct draft.frozen := by
  intro i j c hi hj
  obtain ⟨k, hk, hc⟩ := frozen_get.1 hi
  obtain ⟨l, hl, hc'⟩ := frozen_get.1 hj
  have hfound : draft.index[c]? = some k := (draft.index_iff c k).2 (by simpa using hc)
  have hfound' : draft.index[c]? = some l := (draft.index_iff c l).2 (by simpa using hc')
  have hsame : k = l := Option.some.inj (hfound.symm.trans hfound')
  exact UInt16.toNat_inj.1 (by rw [hk, hl, hsame])

theorem mem_entries_iff : c ∈ draft.entries.toList ↔ ∃ i, draft.frozen.get i = .ok c := by
  constructor
  · intro h
    obtain ⟨k, hk⟩ := List.getElem?_of_mem h
    have hlt : k < draft.entries.size := by simpa using (List.getElem?_eq_some_iff.1 hk).1
    have hsize := draft.size_le
    refine ⟨UInt16.ofNat (k + 1), frozen_get.2 ⟨k, ?_, hk⟩⟩
    rw [UInt16.toNat_ofNat']
    omega
  · rintro ⟨i, hi⟩
    obtain ⟨k, -, hk⟩ := frozen_get.1 hi
    exact List.mem_of_getElem? hk

/-- An entry that is there is answered by its slot. -/
theorem intern_of_get (h : draft.frozen.get i = .ok c) : intern c draft = .ok i draft := by
  obtain ⟨k, hk, hc⟩ := frozen_get.1 h
  have hfound : draft.index[c]? = some k := (draft.index_iff c k).2 (by simpa using hc)
  have hslot : UInt16.ofNat (k + 1) = i := by rw [← hk, UInt16.ofNat_toNat]
  unfold intern
  split
  · rename_i l hl
    rw [hfound] at hl
    cases hl
    rw [hslot]
  · rename_i hnone
    simp [hfound] at hnone

theorem index_of_notMem (h : c ∉ draft.entries.toList) : draft.index[c]? = none := by
  rw [Option.eq_none_iff_forall_ne_some]
  intro k hk
  have hc := (draft.index_iff c k).1 hk
  exact h (List.mem_of_getElem? (by simpa using hc))

/-- A new entry gets the next slot, and in a full pool there is none. -/
theorem intern_of_notMem (h : c ∉ draft.entries.toList) :
    intern c draft = if room : draft.entries.size < 65533 then
        .ok draft.count (draft.add c (index_of_notMem h) room)
      else .error (.format .poolFull) draft := by
  have hnone := index_of_notMem h
  unfold intern
  split
  · rename_i k hk
    simp [hnone] at hk
  · rfl

/-! ### The items of a draft -/

/-- The entries of the draft are those of the items, in their order. -/
def Lists (draft : PoolDraft) (items : List Item) : Prop :=
  List.Forall₂ (Item.Entry draft.frozen) items draft.entries.toList

namespace Lists

theorem length (h : Lists draft items) : items.length = draft.entries.size := by
  simpa using h.length_eq

/-- Items and their entries determine each other. -/
theorem entry_biUnique (draft : PoolDraft) : Relator.BiUnique (Item.Entry draft.frozen) :=
  ⟨fun _ _ _ h h' => h.unique h', fun _ _ _ h h' => draft.frozen_distinct.entry h h'⟩

/-- An item is listed exactly if its entry is there. -/
theorem mem_iff (h : Lists draft items) (hentry : Item.Entry draft.frozen item c) :
    item ∈ items ↔ c ∈ draft.entries.toList :=
  List.rel_mem (entry_biUnique draft) hentry h

/-- Items have their slots in order, from one on. -/
theorem at_slot (h : Lists draft items) {k : Nat} (hk : items[k]? = some item) :
    item.At draft.frozen (UInt16.ofNat (k + 1)) := by
  obtain ⟨hlt, rfl⟩ := List.getElem?_eq_some_iff.1 hk
  have hlt' : k < draft.entries.toList.length := h.length_eq ▸ hlt
  have hentry := List.Forall₂.get h hlt hlt'
  have hsize := draft.size_le
  refine Item.at_iff.2 ⟨_, frozen_get.2 ⟨k, ?_, List.getElem?_eq_getElem hlt'⟩, hentry⟩
  rw [UInt16.toNat_ofNat']
  simp only [Array.length_toList] at hlt'
  omega

/-- One more entry, of one more item. -/
theorem add (h : Lists draft items) (hgrows : draft.Grows later)
    (hentries : later.entries.toList = draft.entries.toList ++ [c])
    (hentry : Item.Entry draft.frozen item c) : Lists later (items ++ [item]) := by
  rw [Lists, hentries]
  have hold := h.imp fun _ _ hentry => hentry.within hgrows.within
  exact List.rel_append hold (.cons (hentry.within hgrows.within) .nil)

end Lists

/-! ### Asking a list of items -/

/-- What is done to a list of items; it ends badly where a request does. -/
abbrev Enlisting := EStateM Unit (List Item) Unit

/-- Asks for one part. -/
def enlist (item : Item) : Enlisting := fun items =>
  if item.fits then
    if item ∈ items then .ok () items
    else if items.length < 65533 then .ok () (items ++ [item])
    else .error () items
  else .error () items

theorem enlist_of_long (h : item.fits = false) : enlist item items = .error () items := by
  rw [enlist, h]
  rfl

theorem enlist_of_mem (hfits : item.fits = true) (h : item ∈ items) :
    enlist item items = .ok () items := by
  rw [enlist, if_pos hfits, if_pos h]

theorem enlist_of_room (hfits : item.fits = true) (h : item ∉ items)
    (room : items.length < 65533) : enlist item items = .ok () (items ++ [item]) := by
  rw [enlist, if_pos hfits, if_neg h, if_pos room]

theorem enlist_of_full (hfits : item.fits = true) (h : item ∉ items)
    (full : ¬items.length < 65533) : enlist item items = .error () items := by
  rw [enlist, if_pos hfits, if_neg h, if_neg full]

/-- Asks for parts, one after the other. -/
def enlistAll (parts : List Item) : Enlisting := parts.forM enlist

theorem enlistAll_singleton (item : Item) : enlistAll [item] = enlist item := by
  funext items
  rw [enlistAll, List.forM]
  simp only [Bind.bind, EStateM.bind]
  cases enlist item items <;> rfl

theorem enlistAll_append (parts parts' : List Item) :
    enlistAll (parts ++ parts') = (do enlistAll parts; enlistAll parts') := by
  induction parts with
  | nil => rfl
  | cons part parts ih =>
    have hcons (parts : List Item) :
        enlistAll (part :: parts) = (do enlist part; enlistAll parts) := rfl
    rw [List.cons_append, hcons, hcons, ih, bind_assoc]

/-- The request does to the draft what asking for the parts does to the list of its items; if it
    succeeds, its result is good in the pool that it leaves. -/
def Tracks (request : Request α) (draft : PoolDraft) (items parts : List Item)
    (good : α → ConstantPool → Prop) : Prop :=
  Ends request draft
    (fun a later => draft.Grows later ∧ good a later.frozen ∧
      ∃ items', enlistAll parts items = .ok () items' ∧ Lists later items')
    (fun _ later => draft.Grows later ∧
      ∃ items', enlistAll parts items = .error () items' ∧ Lists later items')

namespace Tracks

variable {x : Request α} {f : α → Request β} {parts parts' : List Item}
  {good : α → ConstantPool → Prop}

theorem pure {a : α} (hlists : Lists draft items) (hgood : good a draft.frozen) :
    Tracks (pure a) draft items [] good :=
  Ends.pure ⟨.refl draft, hgood, items, rfl, hlists⟩

/-- One request after the other asks for the parts of both. -/
theorem bind {good' : β → ConstantPool → Prop} (hx : Tracks x draft items parts good)
    (hf : ∀ a later items', draft.Grows later → Lists later items' → good a later.frozen →
      Tracks (f a) later items' parts' good') :
    Tracks (x >>= f) draft items (parts ++ parts') good' := by
  rw [Tracks, enlistAll_append]
  refine Ends.andThen hx ?_ ?_
  · rintro a later ⟨hgrows, hgood, items', hparts, hlists⟩
    have hsecond := hf a later items' hgrows hlists hgood
    have hall : (do enlistAll parts; enlistAll parts' : Enlisting) items
        = enlistAll parts' items' := by
      simp only [Bind.bind, EStateM.bind, hparts]
    rw [hall]
    exact Ends.mono hsecond (fun b last h => ⟨hgrows.trans h.1, h.2⟩)
      fun e last h => ⟨hgrows.trans h.1, h.2⟩
  · rintro e later ⟨hgrows, items', hparts, hlists⟩
    refine ⟨hgrows, items', ?_, hlists⟩
    simp only [Bind.bind, EStateM.bind, hparts]

end Tracks

/-! ### Requests -/

/-- The entry of an item, all of whose other parts have their slots. -/
theorem intern_tracks (hlists : Lists draft items) (hentry : Item.Entry draft.frozen item c)
    (hfits : item.fits = true) :
    Tracks (intern c) draft items [item] fun i pool => item.At pool i := by
  have hmem := hlists.mem_iff hentry
  have hlength := hlists.length
  rw [Tracks, enlistAll_singleton]
  unfold Ends
  by_cases hc : c ∈ draft.entries.toList
  · obtain ⟨i, hi⟩ := mem_entries_iff.1 hc
    rw [intern_of_get hi]
    exact ⟨.refl draft, Item.at_iff.2 ⟨c, hi, hentry⟩, items, enlist_of_mem hfits (hmem.2 hc),
      hlists⟩
  · have hnew : item ∉ items := fun hitem => hc (hmem.1 hitem)
    by_cases room : draft.entries.size < 65533
    · have hgrows := add_grows (index_of_notMem hc) room (hentry.isWritable hfits)
      have hentries : (draft.add c (index_of_notMem hc) room).entries.toList
          = draft.entries.toList ++ [c] := by simp [PoolDraft.add]
      have hslot : (draft.add c (index_of_notMem hc) room).frozen.get draft.count = .ok c :=
        frozen_get.2 ⟨draft.entries.size, draft.count_toNat, by simp [hentries]⟩
      rw [intern_of_notMem hc, dif_pos room]
      exact ⟨hgrows, Item.at_iff.2 ⟨c, hslot, hentry.within hgrows.within⟩, items ++ [item],
        enlist_of_room hfits hnew (hlength ▸ room), hlists.add hgrows hentries hentry⟩
    · rw [intern_of_notMem hc, dif_neg room]
      exact ⟨.refl draft, items, enlist_of_full hfits hnew (hlength ▸ room), hlists⟩

theorem utf8_tracks (hlists : Lists draft items) (s : String) :
    Tracks (utf8 s) draft items [.text s] fun i pool => (Item.text s).At pool i := by
  unfold utf8
  split
  · rename_i hlong
    have hfits : (Item.text s).fits = false := decide_eq_false (Nat.not_le.2 hlong)
    refine .throw ⟨.refl draft, items, ?_, hlists⟩
    rw [enlistAll_singleton, enlist_of_long hfits]
  · rename_i hshort
    have hfits : (Item.text s).fits = true := decide_eq_true (Nat.not_lt.1 hshort)
    exact intern_tracks hlists (.text s) hfits

theorem classRef_tracks (hlists : Lists draft items) (name : String) :
    Tracks (classRef name) draft items (Item.classRef name).parts
      fun i pool => (Item.classRef name).At pool i := by
  refine (utf8_tracks hlists name).bind fun n middle items' _ hlists' hname => ?_
  exact intern_tracks hlists' (.classRef hname) rfl

theorem nameAndType_tracks (hlists : Lists draft items) (name descriptor : String) :
    Tracks (nameAndType name descriptor) draft items (Item.nameAndType name descriptor).parts
      fun i pool => (Item.nameAndType name descriptor).At pool i := by
  refine (utf8_tracks hlists name).bind fun n first items' _ hlists' hname => ?_
  refine (utf8_tracks hlists' descriptor).bind fun d second items'' hgrows hlists'' hdescriptor => ?_
  exact intern_tracks hlists'' (.nameAndType (hgrows.within.utf8 hname) hdescriptor) rfl

/-- A request does to the draft what asking for the parts of its item does to the list of items, and
    its answer is a slot of the item. -/
theorem ask_tracks (hlists : Lists draft items) (item : Item) :
    Tracks item.ask draft items item.parts fun i pool => item.At pool i := by
  cases item with
  | text s => exact utf8_tracks hlists s
  | integer v => exact intern_tracks hlists (.integer v) rfl
  | classRef name => exact classRef_tracks hlists name
  | nameAndType name descriptor => exact nameAndType_tracks hlists name descriptor
  | fieldRef field =>
    refine (classRef_tracks hlists field.owner).bind fun o first items' _ hlists' howner => ?_
    refine (nameAndType_tracks hlists' field.name field.descriptor).bind
      fun nt second items'' hgrows hlists'' hrest => ?_
    exact intern_tracks hlists'' (.fieldRef (howner.within hgrows.within) hrest) rfl

/-! ### Requests for what is there -/

section

variable (hwritable : ∀ c ∈ draft.entries.toList, c.IsWritable)
include hwritable

theorem utf8_of_at {s : String} (h : draft.frozen.utf8 i = .ok s) : utf8 s draft = .ok i draft := by
  have hget := ConstantPool.utf8_eq_ok.1 h
  have hshort : s.utf8ByteSize ≤ 65535 := hwritable _ (mem_entries_iff.2 ⟨i, hget⟩)
  unfold utf8
  rw [if_neg (Nat.not_lt.2 hshort)]
  exact intern_of_get hget

theorem classRef_of_at {name : String} (h : draft.frozen.className i = .ok name) :
    classRef name draft = .ok i draft := by
  obtain ⟨n, hget, hname⟩ := ConstantPool.className_eq_ok.1 h
  exact bind_eq_ok.2 ⟨n, draft, utf8_of_at hwritable hname, intern_of_get hget⟩

theorem nameAndType_of_at {name descriptor : String}
    (h : (Item.nameAndType name descriptor).At draft.frozen i) :
    nameAndType name descriptor draft = .ok i draft := by
  obtain ⟨n, d, hget, hname, hdescriptor⟩ := h
  exact bind_eq_ok.2 ⟨n, draft, utf8_of_at hwritable hname,
    bind_eq_ok.2 ⟨d, draft, utf8_of_at hwritable hdescriptor, intern_of_get hget⟩⟩

/-- An item that has a slot is answered by it, and nothing changes. -/
theorem ask_of_at (h : item.At draft.frozen i) : item.ask draft = .ok i draft := by
  cases item with
  | text s => exact utf8_of_at hwritable h
  | integer v => exact intern_of_get (ConstantPool.integer?_eq_some.1 h)
  | classRef name => exact classRef_of_at hwritable h
  | nameAndType name descriptor => exact nameAndType_of_at hwritable h
  | fieldRef field =>
    obtain ⟨o, nt, n, d, hget, hrest, howner, hname, hdescriptor⟩ := ConstantPool.field_eq_ok.1 h
    have hsecond := nameAndType_of_at hwritable ⟨n, d, hrest, hname, hdescriptor⟩
    exact bind_eq_ok.2 ⟨o, draft, classRef_of_at hwritable howner,
      bind_eq_ok.2 ⟨nt, draft, hsecond, intern_of_get hget⟩⟩

end

end ResourceMerge.PoolDraft

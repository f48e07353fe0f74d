import Mathlib.Data.List.Nodup
import ResourceMerge.Proofs.FirstAppearance
import ResourceMerge.Proofs.PoolListing
import ResourceMerge.Proofs.PoolRoundTrip

/-! Any sequence of requests to a new constant pool, with requests among them that fail. What the
    pool then holds depends on the requests alone: the parts that they got to, each where it was
    first used, up to the limit of 65533. From this follows which requests fail. Whatever the pool
    holds it answers by the same slot for good, and gives it back after it was written and read. -/

namespace ResourceMerge.PoolDraft

variable {draft later : PoolDraft} {items parts : List Item} {item : Item} {i : UInt16}

/-! ### Asking for parts, all at once -/

/-- The items that are there and the parts that are asked for, each once, up to the limit; parts
    behind a text that is too long are not asked for. -/
def enlisted (items parts : List Item) : List Item :=
  ((items ++ parts.takeWhile Item.fits).eraseDups).take 65533

/-- Are all parts short enough, and is there room for those that are new? -/
def HasRoom (items parts : List Item) : Prop :=
  (∀ part ∈ parts, part.fits = true) ∧ (items ++ parts).eraseDups.length ≤ 65533

theorem fits_eq_false : item.fits = false ↔ ∃ s, item = .text s ∧ 65535 < s.utf8ByteSize := by
  cases item <;> simp [Item.fits]

/-- There is no room where a text is too long or too many parts are new. -/
theorem not_hasRoom_iff (h : items.Nodup) : ¬HasRoom items parts ↔
    (∃ s, Item.text s ∈ parts ∧ 65535 < s.utf8ByteSize) ∨
      65533 < items.length + ((parts.filter (· ∉ items)).eraseDups).length := by
  have hnew : parts.removeAll items = parts.filter (· ∉ items) := by
    refine List.filter_congr fun part _ => ?_
    simp
  have hlong : (¬∀ part ∈ parts, part.fits = true) ↔
      ∃ s, Item.text s ∈ parts ∧ 65535 < s.utf8ByteSize := by
    simp only [not_forall, Bool.not_eq_true, fits_eq_false]
    constructor
    · rintro ⟨part, hpart, s, rfl, hs⟩
      exact ⟨s, hpart, hs⟩
    · rintro ⟨s, hpart, hs⟩
      exact ⟨.text s, hpart, s, rfl, hs⟩
  rw [HasRoom, not_and_or, hlong, eraseDups_append_of_nodup h, List.length_append, hnew, Nat.not_le]

theorem enlistAll_ends : ∀ (parts : List Item) {items : List Item}, items.Nodup →
    items.length ≤ 65533 →
    Ends (enlistAll parts) items
      (fun _ items' => items' = enlisted items parts ∧ HasRoom items parts)
      (fun _ items' => items' = enlisted items parts ∧ ¬HasRoom items parts)
  | [], items, hnodup, hlength => by
    have hself : (items ++ []).eraseDups = items := by
      rw [List.append_nil, eraseDups_of_nodup hnodup]
    refine .pure ⟨?_, by simp, hself.symm ▸ hlength⟩
    rw [enlisted, List.takeWhile_nil, hself, List.take_of_length_le hlength]
  | part :: parts, items, hnodup, hlength => by
    have hcons : enlistAll (part :: parts) = (do enlist part; enlistAll parts) := rfl
    rw [hcons, Ends]
    simp only [Bind.bind, EStateM.bind]
    cases hfits : part.fits with
    | false =>
      -- the text is too long, and nothing behind it is asked for
      have hself : enlisted items (part :: parts) = items := by
        rw [enlisted, List.takeWhile_cons_of_neg (by simp [hfits]), List.append_nil,
          eraseDups_of_nodup hnodup, List.take_of_length_le hlength]
      rw [enlist_of_long hfits]
      exact ⟨hself.symm, fun hroom => by simp [hroom.1 part List.mem_cons_self] at hfits⟩
    | true =>
      have htake : (part :: parts).takeWhile Item.fits = part :: parts.takeWhile Item.fits :=
        List.takeWhile_cons_of_pos hfits
      have hall : (∀ p ∈ part :: parts, p.fits = true) ↔ ∀ p ∈ parts, p.fits = true := by
        simp [hfits]
      by_cases hmem : part ∈ items
      · -- the part is there
        have hrest := enlistAll_ends parts hnodup hlength
        rw [enlist_of_mem hfits hmem, enlisted, HasRoom, htake, hall,
          eraseDups_append_cons_of_mem hmem, eraseDups_append_cons_of_mem hmem]
        exact hrest
      · by_cases room : items.length < 65533
        · -- the part is new, and the others are asked for behind it
          have hnext : (items ++ [part]).Nodup := List.concat_eq_append ▸ hnodup.concat hmem
          have hfew : (items ++ [part]).length ≤ 65533 := by
            rw [List.length_append, List.length_singleton]
            exact room
          have hrest := enlistAll_ends parts hnext hfew
          rw [enlist_of_room hfits hmem room, enlisted, HasRoom, htake, hall,
            List.append_cons items part (parts.takeWhile _), List.append_cons items part parts]
          exact hrest
        · -- the part is new, and the pool is full
          have hmore := length_lt_of_notMem hnodup hmem parts
          have hself : enlisted items (part :: parts) = items := by
            rw [enlisted, htake, eraseDups_append_of_nodup hnodup,
              List.take_append_of_le_length (by omega), List.take_of_length_le hlength]
          rw [enlist_of_full hfits hmem room]
          exact ⟨hself.symm, fun hroom => absurd hroom.2 (by omega)⟩

/-- What asks the pool for parts succeeds exactly if there is room for them. -/
theorem Tracks.succeeds_iff {α : Type} {x : Request α} {good : α → ConstantPool → Prop}
    (h : Tracks x draft items parts good) (hnodup : items.Nodup) (hlength : items.length ≤ 65533) :
    (∃ a later, x draft = .ok a later) ↔ HasRoom items parts := by
  have hparts := enlistAll_ends parts hnodup hlength
  unfold Tracks at h
  cases hx : x draft with
  | ok a later =>
    obtain ⟨-, -, items', hitems, -⟩ := h.of_ok hx
    exact ⟨fun _ => (hparts.of_ok hitems).2, fun _ => ⟨a, later, rfl⟩⟩
  | error e later =>
    obtain ⟨-, items', hitems, -⟩ := h.of_error hx
    constructor
    · rintro ⟨a, later, ⟨⟩⟩
    · exact fun hroom => absurd hroom (hparts.of_error hitems).2

/-! ### Any number of requests -/

/-- What a request leaves, whether it succeeds or fails. -/
def after (draft : PoolDraft) (item : Item) : PoolDraft :=
  match item.ask draft with
  | .ok _ later => later
  | .error _ later => later

/-- What requests to a new pool leave, made one after the other. -/
def ofRequests (requests : List Item) : PoolDraft := requests.foldl after empty

/-- The parts that a request gets to: all, or those in front of a text that is too long. -/
def Item.used (item : Item) : List Item := item.parts.takeWhile fits

/-- The items that requests put into a new pool: the parts that they get to, each where it is first
    used, up to the limit. -/
def uses (requests : List Item) : List Item := ((requests.flatMap Item.used).eraseDups).take 65533

theorem nodup_uses (requests : List Item) : (uses requests).Nodup :=
  (nodup_eraseDups _).sublist (List.take_sublist 65533 _)

theorem length_uses_le (requests : List Item) : (uses requests).length ≤ 65533 :=
  List.length_take_le 65533 _

theorem enlisted_uses (requests : List Item) (item : Item) :
    enlisted (uses requests) item.parts = uses (requests ++ [item]) := by
  rw [enlisted, uses, take_eraseDups_append, uses, List.flatMap_append, List.flatMap_singleton]
  rfl

/-- A pool after some requests: its entries are those of the items that were used, and all of them
    have a form in a class file. -/
structure Reached (draft : PoolDraft) (requests : List Item) : Prop where
  lists : Lists draft (uses requests)
  writable : ∀ c ∈ draft.entries.toList, c.IsWritable

theorem reached_empty : Reached empty [] := ⟨.nil, by simp [empty]⟩

namespace Reached

variable {requests : List Item}

/-- One more request. -/
theorem ask_ends (h : Reached draft requests) (item : Item) :
    Ends item.ask draft
      (fun i later => draft.Grows later ∧ Reached later (requests ++ [item]) ∧
        item.At later.frozen i)
      (fun _ later => draft.Grows later ∧ Reached later (requests ++ [item])) := by
  have hparts := enlistAll_ends item.parts (nodup_uses requests) (length_uses_le requests)
  rw [enlisted_uses] at hparts
  refine (ask_tracks h.lists item).mono ?_ ?_
  · rintro i later ⟨hgrows, hat, items', hitems, hlists⟩
    obtain ⟨rfl, -⟩ := hparts.of_ok hitems
    exact ⟨hgrows, ⟨hlists, hgrows.writable h.writable⟩, hat⟩
  · rintro e later ⟨hgrows, items', hitems, hlists⟩
    obtain ⟨rfl, -⟩ := hparts.of_error hitems
    exact ⟨hgrows, ⟨hlists, hgrows.writable h.writable⟩⟩

theorem after_ends (h : Reached draft requests) (item : Item) :
    draft.Grows (draft.after item) ∧ Reached (draft.after item) (requests ++ [item]) := by
  have hends := h.ask_ends item
  unfold after
  cases hask : item.ask draft with
  | ok i later => exact ⟨(hends.of_ok hask).1, (hends.of_ok hask).2.1⟩
  | error e later => exact hends.of_error hask

/-- Any number of further requests. -/
theorem foldl_after : ∀ (further : List Item) {draft : PoolDraft} {requests : List Item},
    Reached draft requests → draft.Grows (further.foldl after draft) ∧
      Reached (further.foldl after draft) (requests ++ further)
  | [], draft, requests, h => ⟨.refl draft, by rwa [List.append_nil]⟩
  | item :: further, draft, requests, h => by
    obtain ⟨hgrows, hnext⟩ := h.after_ends item
    obtain ⟨hgrows', hlast⟩ := foldl_after further hnext
    rw [List.append_assoc, List.singleton_append] at hlast
    exact ⟨hgrows.trans hgrows', hlast⟩

theorem nodup_entries (h : Reached draft requests) : draft.entries.toList.Nodup :=
  (List.rel_nodup (Lists.entry_biUnique draft) h.lists).1 (nodup_uses requests)

/-- The pool holds the items that were used, and no others. -/
theorem mem_uses_iff (h : Reached draft requests) :
    item ∈ uses requests ↔ ∃ i, item.At draft.frozen i := by
  constructor
  · intro hitem
    obtain ⟨k, hk⟩ := List.getElem?_of_mem hitem
    exact ⟨_, h.lists.at_slot hk⟩
  · rintro ⟨i, hi⟩
    obtain ⟨c, hc, hentry⟩ := Item.at_iff.1 hi
    exact (h.lists.mem_iff hentry).2 (mem_entries_iff.2 ⟨i, hc⟩)

end Reached

theorem ofRequests_reached (requests : List Item) : Reached (ofRequests requests) requests :=
  (Reached.foldl_after requests reached_empty).2

/-- Later requests keep what earlier requests left. -/
theorem ofRequests_grows (earlier later : List Item) :
    (ofRequests earlier).Grows (ofRequests (earlier ++ later)) := by
  rw [ofRequests, ofRequests, List.foldl_append]
  exact (Reached.foldl_after later (ofRequests_reached earlier)).1

/-- An answer is a slot of the item in every later pool. -/
theorem at_of_answered {earlier : List Item} (h : item.ask (ofRequests earlier) = .ok i draft)
    (later : List Item) : item.At (ofRequests (earlier ++ item :: later)).frozen i := by
  have hat := ((ofRequests_reached earlier).ask_ends item).of_ok h
  have hnext : ofRequests (earlier ++ [item]) = draft := by
    rw [ofRequests, List.foldl_append, ← ofRequests, List.foldl_cons, List.foldl_nil, after, h]
  have hgrows := ofRequests_grows (earlier ++ [item]) later
  rw [hnext, List.append_assoc, List.singleton_append] at hgrows
  exact hat.2.2.within hgrows.within

/-! ### Later pools -/

/-- The pool is what some requests leave. -/
def Leads (draft later : PoolDraft) : Prop := ∃ more : List Item, later = more.foldl after draft

theorem Leads.refl (draft : PoolDraft) : Leads draft draft := ⟨[], rfl⟩

theorem Leads.trans {later last : PoolDraft} (h : Leads draft later) (h' : Leads later last) :
    Leads draft last := by
  obtain ⟨more, rfl⟩ := h
  obtain ⟨more', rfl⟩ := h'
  exact ⟨more ++ more', List.foldl_append.symm⟩

theorem ask_leads (item : Item) (draft : PoolDraft) :
    Ends item.ask draft (fun _ later => Leads draft later) (fun _ later => Leads draft later) := by
  have hone : Leads draft (draft.after item) := ⟨[item], rfl⟩
  unfold after at hone
  unfold Ends
  cases hask : item.ask draft with
  | ok i later => rwa [hask] at hone
  | error e later => rwa [hask] at hone

/-! ### What a pool is worth -/

theorem frozen_size (draft : PoolDraft) : draft.frozen.size = draft.count.toNat := by
  simp [frozen, ConstantPool.size, count_toNat]

/-- Whatever requests were made of a new pool, it holds the parts that they got to, each once, in
    the order of first use and up to the limit, in the slots from one on. An answer is given again
    for good. The pool is written and read back with the same entries in the same slots, whatever
    follows its bytes, and each answer leads to what it was given for. A request fails exactly if a
    text in it is too long or if the parts that are new exceed the limit. -/
theorem ofRequests_reads_back (requests : List Item) :
    ((ofRequests requests).entries.toList.Nodup ∧ (ofRequests requests).entries.size ≤ 65533 ∧
      (ofRequests requests).count.toNat = (ofRequests requests).entries.size + 1 ∧
      (ofRequests requests).entries.size = (uses requests).length ∧
      ∀ (k : Nat) (item : Item), (uses requests)[k]? = some item →
        item.ask (ofRequests requests) = .ok (UInt16.ofNat (k + 1)) (ofRequests requests)) ∧
    (∀ earlier item later i draft, requests = earlier ++ item :: later →
      item.ask (ofRequests earlier) = .ok i draft →
      item.ask (ofRequests requests) = .ok i (ofRequests requests)) ∧
    (∃ bytes pool, (ofRequests requests).write = .ok bytes ∧
      (∀ rest offset, ConstantPool.read ⟨bytes ++ rest, offset⟩
        = .ok pool ⟨rest, offset + bytes.length⟩) ∧
      pool.size = (ofRequests requests).count.toNat ∧
      pool.slots.toList = none :: (ofRequests requests).entries.toList.map some ∧
      (∀ item, item ∈ uses requests ↔ ∃ i, item.At pool i) ∧
      ∀ earlier item later i draft, requests = earlier ++ item :: later →
        item.ask (ofRequests earlier) = .ok i draft → item.At pool i) ∧
    ∀ item : Item, (∃ e draft, item.ask (ofRequests requests) = .error e draft) ↔
      (∃ s, Item.text s ∈ item.parts ∧ 65535 < s.utf8ByteSize) ∨
        65533 < (ofRequests requests).entries.size
          + ((item.parts.filter (· ∉ uses requests)).eraseDups).length := by
  have hreached := ofRequests_reached requests
  have hlength := hreached.lists.length
  obtain ⟨bytes, hwrite, hreads⟩ := write_reads hreached.writable
  refine ⟨⟨hreached.nodup_entries, (ofRequests requests).size_le, (ofRequests requests).count_toNat,
    hlength.symm, fun k item hk => ask_of_at hreached.writable (hreached.lists.at_slot hk)⟩,
    ?_, ⟨bytes, (ofRequests requests).frozen, hwrite, hreads, frozen_size _, by simp [frozen],
      fun item => hreached.mem_uses_iff, ?_⟩, fun item => ?_⟩
  · rintro earlier item later i draft rfl hask
    exact ask_of_at hreached.writable (at_of_answered hask later)
  · rintro earlier item later i draft rfl hask
    exact at_of_answered hask later
  · have hok := (ask_tracks hreached.lists item).succeeds_iff (nodup_uses requests)
      (length_uses_le requests)
    rw [← hlength, ← not_hasRoom_iff (nodup_uses requests), ← hok]
    cases item.ask (ofRequests requests) <;> simp

/-- Two fields of one class, and an integer between them. -/
def sampleRequests : List Item :=
  [.fieldRef (.intArray "R$styleable" "a"), .integer 70000, .fieldRef (.intArray "R$styleable" "b")]

theorem ofRequests_reads_back_sample :
    (ofRequests sampleRequests).entries.size = 10 ∧
      (Item.integer 70000).ask (ofRequests sampleRequests) = .ok 7 (ofRequests sampleRequests) ∧
      (∃ bytes pool, (ofRequests sampleRequests).write = .ok bytes ∧
        ConstantPool.read ⟨bytes ++ [202, 254], 0⟩ = .ok pool ⟨[202, 254], 0 + bytes.length⟩ ∧
        pool.field 6 = .ok (.intArray "R$styleable" "a")) ∧
      ¬∃ e draft, (Item.classRef "a").ask (ofRequests sampleRequests) = .error e draft := by
  have hask : endsIn (fun i _ => i = 6)
      ((Item.fieldRef (.intArray "R$styleable" "a")).ask (ofRequests [])) = true := by
    decide +kernel
  obtain ⟨i, draft, hfirst, hslot⟩ := exists_of_endsIn hask
  cases of_decide_eq_true hslot
  obtain ⟨⟨-, -, -, hsize, hslots⟩, -, ⟨bytes, pool, hwrite, hread, -, -, -, hanswers⟩, hfails⟩ :=
    ofRequests_reads_back sampleRequests
  have hcount : (ofRequests sampleRequests).entries.size = 10 := hsize.trans (by decide +kernel)
  refine ⟨hcount, hslots 6 (.integer 70000) (by decide +kernel),
    ⟨bytes, pool, hwrite, hread [202, 254] 0, hanswers [] _ _ 6 draft rfl hfirst⟩, ?_⟩
  rw [hfails, hcount]
  rintro (⟨s, hs, hlong⟩ | hfull)
  · have hs : s = "a" := by simpa [Item.parts] using hs
    subst hs
    exact absurd hlong (by decide +kernel)
  · exact absurd hfull (by decide +kernel)

end ResourceMerge.PoolDraft

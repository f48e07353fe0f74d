import ResourceMerge.Proofs.ClassDelimiting
import ResourceMerge.Proofs.PoolLayout

/-! Slots against entries. Entries of a constant pool are found by slot numbers, and an entry of
    eight bytes takes two of them, so the number of an entry is told by the widths of all before it.
    A pool that is read has its entries at these numbers and nothing anywhere else, and every run of
    bytes that is read as a pool is the form of some list of entries: the tag of an entry tells its
    parts, and a number of slots that ends within an entry is refused. -/

namespace ResourceMerge

open Binary

/-! ### Numbers of slots -/

namespace PoolEntry

/-- Behind its first slot an entry has one more, with nothing in it, or none. -/
theorem getElem?_slots {entry : PoolEntry} {n : Nat} {slot : Option Constant} :
    entry.slots[n]? = some slot ↔
      (n = 0 ∧ slot = some entry.constant) ∨ (n = 1 ∧ slot = none ∧ entry.isWide) := by
  rw [slots_eq]
  rcases n with _ | _ | n <;> cases entry.isWide <;> simp [eq_comm]

end PoolEntry

namespace ConstantPool

/-- The slots that a list of entries takes, with the one before them that holds nothing. -/
def slotCount (entries : List PoolEntry) : Nat := 1 + (entries.map PoolEntry.width).sum

/-- The entry has the number `n`: its first slot comes after those of all entries before it. -/
def StandsAt (entries : List PoolEntry) (n : Nat) (entry : PoolEntry) : Prop :=
  ∃ before behind, entries = before ++ entry :: behind ∧ n = slotCount before

theorem slotCount_append (entries behind : List PoolEntry) :
    slotCount (entries ++ behind) = slotCount entries + (behind.map PoolEntry.width).sum := by
  rw [slotCount, slotCount, List.map_append, List.sum_append, Nat.add_assoc]

theorem slotCount_eq (entries : List PoolEntry) :
    slotCount entries = (entries.flatMap PoolEntry.slots).length + 1 := by
  rw [slotCount, List.length_flatMap, Nat.add_comm]
  simp only [PoolEntry.length_slots]

/-- An item of lists in sequence is one of one of them, behind those of all before it. -/
theorem getElem?_flatMap {α β : Type} {f : α → List β} : ∀ {xs : List α} {n : Nat} {b : β},
    (xs.flatMap f)[n]? = some b ↔ ∃ before x behind k, xs = before ++ x :: behind ∧
      n = (before.flatMap f).length + k ∧ (f x)[k]? = some b := by
  intro xs n b
  constructor
  · intro h
    induction xs generalizing n with
    | nil => cases h
    | cons x xs ih =>
      rw [List.flatMap_cons] at h
      rcases Nat.lt_or_ge n (f x).length with hn | hn
      · rw [List.getElem?_append_left hn] at h
        exact ⟨[], x, xs, n, rfl, by simp, h⟩
      · rw [List.getElem?_append_right hn] at h
        obtain ⟨before, y, behind, k, rfl, hk, hb⟩ := ih h
        refine ⟨x :: before, y, behind, k, rfl, ?_, hb⟩
        rw [List.flatMap_cons, List.length_append]
        omega
  · rintro ⟨before, x, behind, k, rfl, rfl, hb⟩
    obtain ⟨hk, -⟩ := List.getElem?_eq_some_iff.1 hb
    rw [List.flatMap_append, List.flatMap_cons, List.getElem?_append_right (Nat.le_add_right _ _),
      Nat.add_sub_cancel_left, List.getElem?_append_left hk, hb]

/-- What stands in the slots of a pool, by their numbers. -/
theorem getElem?_ofEntries {entries : List PoolEntry} {n : Nat} {slot : Option Constant} :
    (ofEntries entries).slots[n]? = some slot ↔ (n = 0 ∧ slot = Option.none) ∨
      ∃ entry k, StandsAt entries k entry ∧
        ((n = k ∧ slot = some entry.constant) ∨ (n = k + 1 ∧ slot = Option.none ∧ entry.isWide)) := by
  rw [ofEntries, List.getElem?_toArray]
  cases n with
  | zero =>
    rw [List.getElem?_cons_zero, Option.some.injEq, eq_comm, or_iff_left]
    · simp
    · rintro ⟨entry, k, ⟨before, behind, rfl, rfl⟩, ⟨hk, -⟩ | ⟨hk, -⟩⟩
      all_goals
        rw [slotCount_eq] at hk
        omega
  | succ n =>
    rw [List.getElem?_cons_succ, getElem?_flatMap, or_iff_right (by simp)]
    constructor
    · rintro ⟨before, entry, behind, k, hentries, hn, hslot⟩
      refine ⟨entry, _, ⟨before, behind, hentries, rfl⟩, ?_⟩
      rw [slotCount_eq]
      rcases PoolEntry.getElem?_slots.1 hslot with ⟨rfl, rfl⟩ | ⟨rfl, rfl, hwide⟩
      · exact .inl ⟨by omega, rfl⟩
      · exact .inr ⟨by omega, rfl, hwide⟩
    · rintro ⟨entry, _, ⟨before, behind, hentries, rfl⟩, h⟩
      simp only [slotCount_eq, Nat.add_right_cancel_iff] at h
      rcases h with ⟨hn, hslot⟩ | ⟨hn, hslot, hwide⟩
      · exact ⟨before, entry, behind, 0, hentries, hn, PoolEntry.getElem?_slots.2 (.inl ⟨rfl, hslot⟩)⟩
      · exact ⟨before, entry, behind, 1, hentries, hn,
          PoolEntry.getElem?_slots.2 (.inr ⟨rfl, hslot, hwide⟩)⟩

/-- The pool has each of the entries at its number, and a look-up anywhere else is refused: in slot
    zero, in the second slot of a wide entry, and behind the last one. -/
structure Comprises (pool : ConstantPool) (entries : List PoolEntry) : Prop where
  size : pool.size = slotCount entries
  get : ∀ i c, pool.get i = .ok c ↔ ∃ entry, StandsAt entries i.toNat entry ∧ c = entry.constant
  missing : ∀ i e, pool.get i = .error e ↔ e = .format (.badIndex i) ∧
    (i = 0 ∨ (∃ entry n, StandsAt entries n entry ∧ i.toNat = n + 1 ∧ entry.isWide) ∨
      slotCount entries ≤ i.toNat)

theorem size_eq_slotCount (entries : List PoolEntry) :
    (ofEntries entries).size = slotCount entries :=
  (size_ofEntries entries).trans (slotCount_eq entries).symm

/-- A look-up fails on a slot that does not exist and on one that holds nothing. -/
theorem get_eq_error {pool : ConstantPool} {i : UInt16} {e : Error} :
    pool.get i = .error e ↔ e = .format (.badIndex i) ∧
      (pool.slots[i.toNat]? = some Option.none ∨ pool.slots[i.toNat]? = Option.none) := by
  unfold get
  split
  · rename_i h
    simp [h]
  · rename_i h
    rw [Except.error.injEq, eq_comm, iff_self_and]
    rintro -
    rcases hslot : pool.slots[i.toNat]? with _ | _ | c
    · exact .inr rfl
    · exact .inl rfl
    · exact absurd hslot (h c)

theorem comprises_ofEntries (entries : List PoolEntry) : (ofEntries entries).Comprises entries where
  size := size_eq_slotCount entries
  get := by
    intro i c
    rw [get_eq_ok, getElem?_ofEntries]
    simp only [Option.some.injEq, reduceCtorEq, and_false, false_and, or_false, false_or]
    constructor
    · rintro ⟨entry, n, hstands, rfl, rfl⟩
      exact ⟨entry, hstands, rfl⟩
    · rintro ⟨entry, hstands, rfl⟩
      exact ⟨entry, _, hstands, rfl, rfl⟩
  missing := by
    intro i e
    have hbehind : (ofEntries entries).slots[i.toNat]? = Option.none ↔
        slotCount entries ≤ i.toNat := by
      rw [Array.getElem?_eq_none_iff, ← size_eq_slotCount, size]
    have hzero : i.toNat = 0 ↔ i = 0 := UInt16.toNat_inj (b := 0)
    rw [get_eq_error, getElem?_ofEntries, hbehind, hzero, or_assoc]
    simp only [and_true, reduceCtorEq, and_false, false_or, true_and]

/-! ### The form of an entry, from its bytes -/

/-- Bytes of a pair of words. -/
theorem accepts_pair {make : UInt16 → UInt16 → Constant} {pc : Nat} {bytes : List UInt8}
    {c : Constant} :
    Accepts (do return make (← Reader.u16) (← Reader.u16)) pc bytes c ↔
      ∃ first second, bytes = u16 first ++ u16 second ∧ c = make first second := by
  rw [accepts_u16_bind]
  simp only [accepts_map Framed.u16, accepts_u16]
  constructor
  · rintro ⟨first, _, rfl, second, rfl, rfl⟩
    exact ⟨first, second, rfl, rfl⟩
  · rintro ⟨first, second, rfl, rfl⟩
    exact ⟨first, _, rfl, second, rfl, rfl⟩

/-- Bytes that are stepped over. -/
theorem accepts_skipped {n pc : Nat} {bytes : List UInt8} {c d : Constant} :
    Accepts (do Reader.skip n; return d) pc bytes c ↔ bytes.length = n ∧ c = d := by
  rw [accepts_map (Framed.skip n)]
  simp only [accepts_skip, exists_const]

/-- Any four bytes are those of two words. -/
theorem exists_words {bytes : List UInt8} (h : bytes.length = 4) :
    ∃ first second, bytes = u16 first ++ u16 second := by
  have hfront : (bytes.take 2).length = 2 := by simp [h]
  have hback : (bytes.drop 2).length = 2 := by simp [h]
  obtain ⟨first, hfirst⟩ := exists_u16 hfront
  obtain ⟨second, hsecond⟩ := exists_u16 hback
  exact ⟨first, second, by rw [← hfirst, ← hsecond, List.take_append_drop]⟩

/-- The tag tells what parts the bytes behind it have. -/
theorem exists_entry_of_tagged {slot pc : Nat} {tag : UInt8} {bytes : List UInt8} {c : Constant}
    (h : Accepts (readTagged slot tag) pc bytes c) :
    ∃ entry : PoolEntry, entry.Fits ∧ tag :: bytes = entry.bytes ∧ c = entry.constant := by
  have htag : ∀ {n : Nat}, tag.toNat = n → tag = UInt8.ofNat n := by
    rintro _ rfl
    exact UInt8.ofNat_toNat.symm
  unfold readTagged at h
  split at h <;> try obtain rfl := htag ‹_›
  · simp only [accepts_u16_bind, accepts_map (.take _), accepts_take] at h
    obtain ⟨size, _, rfl, text, ⟨hlength, rfl⟩, rfl⟩ := h
    refine ⟨.utf8 text, ?_, ?_, rfl⟩
    · have hbound := size.toNat_lt
      rw [PoolEntry.Fits]
      omega
    · rw [PoolEntry.bytes, hlength, UInt16.ofNat_toNat]
      rfl
  · obtain ⟨value, hvalue, rfl⟩ := (accepts_map Framed.i32).1 h
    exact ⟨.integer value, trivial, by rw [accepts_i32.1 hvalue]; rfl, rfl⟩
  · obtain ⟨bits, hbits, rfl⟩ := (accepts_map Framed.u32).1 h
    exact ⟨.float bits, trivial, by rw [accepts_u32.1 hbits]; rfl, rfl⟩
  · obtain ⟨bits, hbits, rfl⟩ := (accepts_map Framed.u64).1 h
    exact ⟨.long bits, trivial, by rw [accepts_u64.1 hbits]; rfl, rfl⟩
  · obtain ⟨bits, hbits, rfl⟩ := (accepts_map Framed.u64).1 h
    exact ⟨.double bits, trivial, by rw [accepts_u64.1 hbits]; rfl, rfl⟩
  · obtain ⟨name, hname, rfl⟩ := (accepts_map Framed.u16).1 h
    exact ⟨.classRef name, trivial, by rw [accepts_u16.1 hname]; rfl, rfl⟩
  · obtain ⟨text, htext, rfl⟩ := (accepts_map Framed.u16).1 h
    exact ⟨.string text, trivial, by rw [accepts_u16.1 htext]; rfl, rfl⟩
  · obtain ⟨owner, member, rfl, rfl⟩ := accepts_pair.1 h
    exact ⟨.fieldRef owner member, trivial, rfl, rfl⟩
  · obtain ⟨owner, member, rfl, rfl⟩ := accepts_pair.1 h
    exact ⟨.methodRef owner member, trivial, rfl, rfl⟩
  · obtain ⟨owner, member, rfl, rfl⟩ := accepts_pair.1 h
    exact ⟨.interfaceMethodRef owner member, trivial, rfl, rfl⟩
  · obtain ⟨name, descriptor, rfl, rfl⟩ := accepts_pair.1 h
    exact ⟨.nameAndType name descriptor, trivial, rfl, rfl⟩
  · obtain ⟨hlength, rfl⟩ := accepts_skipped.1 h
    obtain ⟨kind, reference, rfl⟩ := List.exists_cons_of_length_eq_add_one hlength
    obtain ⟨reference, rfl⟩ := exists_u16 (by simpa using hlength)
    exact ⟨.methodHandle kind reference, trivial, rfl, rfl⟩
  · obtain ⟨hlength, rfl⟩ := accepts_skipped.1 h
    obtain ⟨descriptor, rfl⟩ := exists_u16 hlength
    exact ⟨.methodType descriptor, trivial, rfl, rfl⟩
  · obtain ⟨hlength, rfl⟩ := accepts_skipped.1 h
    obtain ⟨name, rfl⟩ := exists_u16 hlength
    exact ⟨.moduleRef name, trivial, rfl, rfl⟩
  · obtain ⟨hlength, rfl⟩ := accepts_skipped.1 h
    obtain ⟨name, rfl⟩ := exists_u16 hlength
    exact ⟨.packageRef name, trivial, rfl, rfl⟩
  · obtain ⟨hlength, rfl⟩ := accepts_skipped.1 h
    obtain ⟨bootstrap, member, rfl⟩ := exists_words hlength
    exact ⟨.dynamic bootstrap member, trivial, rfl, rfl⟩
  · obtain ⟨hlength, rfl⟩ := accepts_skipped.1 h
    obtain ⟨bootstrap, member, rfl⟩ := exists_words hlength
    exact ⟨.invokeDynamic bootstrap member, trivial, rfl, rfl⟩
  · exact absurd h not_accepts_fail

/-- What is accepted as an entry is the form of one. -/
theorem accepts_readConstant {slot pc : Nat} {bytes : List UInt8} {c : Constant} :
    Accepts (readConstant slot) pc bytes c ↔
      ∃ entry : PoolEntry, entry.Fits ∧ bytes = entry.bytes ∧ c = entry.constant := by
  constructor
  · intro h
    obtain ⟨_, parts, tag, rfl, htag, hparts⟩ := (accepts_bind Framed.u8).1 h
    rw [accepts_u8.1 htag]
    exact exists_entry_of_tagged hparts
  · rintro ⟨entry, hfits, rfl, rfl⟩
    exact .of_reads (PoolEntry.reads hfits slot)

/-! ### The form of a pool, from its bytes -/

section Slots

variable {count pc : Nat} {bytes : List UInt8} {slots filled : Array (Option Constant)}

/-- A slot that has to be filled is the first of an entry, behind which the others are filled. -/
theorem exists_entry_of_slots (h : Accepts (readSlots slots (count + 1)) pc bytes filled) :
    ∃ (entry : PoolEntry) (behind : List UInt8) (left : Nat), entry.Fits ∧
      bytes = entry.bytes ++ behind ∧ count + 1 = entry.width + left ∧
      Accepts (readSlots (slots ++ entry.slots.toArray) left) (pc + entry.bytes.length) behind
        filled := by
  rw [readSlots_succ, accepts_bind (readConstant_delimited slots.size).framed] at h
  obtain ⟨_, behind, c, rfl, hc, hbehind⟩ := h
  obtain ⟨entry, hfits, rfl, rfl⟩ := accepts_readConstant.1 hc
  rcases Nat.lt_or_ge (count + 1) entry.width with hshort | hroom
  · rw [readBehind_of_lt hshort] at hbehind
    exact absurd hbehind not_accepts_fail
  · obtain ⟨left, hleft⟩ := Nat.exists_eq_add_of_le hroom
    rw [readBehind_eq hleft] at hbehind
    exact ⟨entry, behind, left, hfits, rfl, hleft, hbehind⟩

/-- Slots that are filled are filled by entries. By induction on the number of those left, which an
    entry lowers by one or two. -/
theorem exists_entries_of_slots (h : Accepts (readSlots slots count) pc bytes filled) :
    ∃ entries : List PoolEntry, (∀ entry ∈ entries, entry.Fits) ∧
      bytes = entries.flatMap PoolEntry.bytes ∧ (entries.flatMap PoolEntry.slots).length = count ∧
      filled = slots ++ (entries.flatMap PoolEntry.slots).toArray := by
  induction count using Nat.strong_induction_on generalizing slots pc bytes with
  | _ count ih =>
    cases count with
    | zero =>
      obtain ⟨rfl, rfl⟩ := accepts_pure.1 h
      exact ⟨[], by simp, rfl, rfl, by simp⟩
    | succ count =>
      obtain ⟨entry, behind, left, hfits, rfl, hcount, hbehind⟩ := exists_entry_of_slots h
      have hwidth := entry.width_pos
      have hleft : left < count + 1 := by omega
      obtain ⟨entries, hentries, rfl, rfl, rfl⟩ := ih left hleft hbehind
      refine ⟨entry :: entries, List.forall_mem_cons.2 ⟨hfits, hentries⟩, rfl, ?_, ?_⟩
      · rw [List.flatMap_cons, List.length_append, PoolEntry.length_slots, hcount]
      · simp

end Slots

/-- A list of entries behind a number of slots. -/
def written (count : UInt16) (entries : List PoolEntry) : List UInt8 :=
  u16 count ++ entries.flatMap PoolEntry.bytes

/-- The number is that of the slots that the entries take; zero stands for one. -/
def Announces (count : UInt16) (entries : List PoolEntry) : Prop :=
  count.toNat = slotCount entries ∨ (count = 0 ∧ entries = [])

instance (count : UInt16) (entries : List PoolEntry) : Decidable (Announces count entries) :=
  inferInstanceAs (Decidable (_ ∨ _))

/-- Behind the number of slots as many are read as it announces. -/
theorem announces_iff {count : UInt16} {entries : List PoolEntry} :
    Announces count entries ↔ (entries.flatMap PoolEntry.slots).length = count.toNat - 1 := by
  have hzero : count.toNat = 0 ↔ count = 0 := UInt16.toNat_inj (b := 0)
  have hnil : (entries.flatMap PoolEntry.slots).length = 0 ↔ entries = [] := by
    cases entries with
    | nil => simp
    | cons entry entries => simp [PoolEntry.slots_eq]
  rw [Announces, slotCount_eq, ← hzero, ← hnil]
  omega

/-- What is accepted as a pool is a list of entries behind the number of their slots. -/
theorem accepts_read {pc : Nat} {bytes : List UInt8} {pool : ConstantPool} :
    Accepts read pc bytes pool ↔ ∃ count entries, (∀ entry ∈ entries, entry.Fits) ∧
      Announces count entries ∧ bytes = written count entries ∧ pool = ofEntries entries := by
  rw [read, accepts_u16_bind]
  simp only [accepts_map (readSlots_delimited _ _).framed]
  constructor
  · rintro ⟨count, _, rfl, filled, hfilled, rfl⟩
    obtain ⟨entries, hentries, rfl, hcount, rfl⟩ := exists_entries_of_slots hfilled
    exact ⟨count, entries, hentries, announces_iff.2 hcount, rfl, by simp [ofEntries]⟩
  · rintro ⟨count, entries, hentries, hcount, rfl, rfl⟩
    refine ⟨count, _, rfl, _, ?_, rfl⟩
    have hreads := entries_fill hentries #[Option.none]
    rw [announces_iff.1 hcount] at hreads
    simpa using Accepts.of_reads hreads

/-- A pool whose number of slots ends within its last entry. -/
theorem read_wideAtEnd {before : List PoolEntry} {wide : PoolEntry} {count : UInt16}
    (hbefore : ∀ entry ∈ before, entry.Fits) (hfits : wide.Fits) (hwide : wide.isWide)
    (hcount : count.toNat + 1 = slotCount (before ++ [wide])) (rest : List UInt8) (offset : Nat) :
    ∃ c, read ⟨written count (before ++ [wide]) ++ rest, offset⟩
      = .error (.format .wideAtEnd) c := by
  have hwidth : wide.width = 2 := if_pos hwide
  have hleft : count.toNat - 1 = (before.flatMap PoolEntry.slots).length + (0 + 1) := by
    rw [slotCount_append, slotCount_eq, List.map_singleton, List.sum_singleton, hwidth] at hcount
    omega
  have hshort : 0 + 1 < wide.width := by omega
  have hslots (offset : Nat) : ∃ c, readSlots #[Option.none] (count.toNat - 1)
      ⟨before.flatMap PoolEntry.bytes ++ (wide.bytes ++ rest), offset⟩
        = .error (.format .wideAtEnd) c := by
    rw [hleft, readSlots_entries hbefore, readSlots_entry hfits, readBehind_of_lt hshort]
    exact ⟨_, rfl⟩
  have hbytes : written count (before ++ [wide]) ++ rest
      = u16 count ++ (before.flatMap PoolEntry.bytes ++ (wide.bytes ++ rest)) := by
    simp [written]
  obtain ⟨c, hslots⟩ := hslots (offset + (u16 count).length)
  rw [hbytes]
  exact ⟨c, bind_eq_error.2 (.inr
    ⟨count, _, Reads.u16 count _ offset, bind_eq_error.2 (.inl hslots)⟩)⟩

/-- A pool is read from its number of slots and its entries, of any kinds, up to the last byte of
    the last of them; it has each entry at its number and nothing elsewhere. A number that ends
    within a wide entry is refused. And nothing but a number of slots and their entries is read as a
    pool. -/
theorem read_comprises :
    (∀ entries : List PoolEntry, (∀ entry ∈ entries, entry.Fits) → ∀ count rest offset,
      (Announces count entries → ∃ pool, read ⟨written count entries ++ rest, offset⟩
          = .ok pool ⟨rest, offset + (written count entries).length⟩ ∧ pool.Comprises entries) ∧
      ((∃ wide ∈ entries.getLast?, wide.isWide) → count.toNat + 1 = slotCount entries →
        ∃ c, read ⟨written count entries ++ rest, offset⟩ = .error (.format .wideAtEnd) c)) ∧
    ∀ c pool c', read c = .ok pool c' → ∃ count entries, (∀ entry ∈ entries, entry.Fits) ∧
      Announces count entries ∧ c.rest = written count entries ++ c'.rest ∧
      c'.offset = c.offset + (written count entries).length ∧ pool.Comprises entries := by
  refine ⟨fun entries hfits count rest offset => ⟨fun hcount => ?_, ?_⟩, fun c pool c' hread => ?_⟩
  · have haccepts : Accepts read offset (written count entries) (ofEntries entries) :=
      accepts_read.2 ⟨count, entries, hfits, hcount, rfl, rfl⟩
    exact ⟨_, haccepts rest, comprises_ofEntries entries⟩
  · rintro ⟨wide, hlast, hwide⟩ hcount
    obtain ⟨before, rfl⟩ := List.getLast?_eq_some_iff.1 hlast
    rw [List.forall_mem_append, List.forall_mem_singleton] at hfits
    exact read_wideAtEnd hfits.1 hfits.2 hwide hcount rest offset
  · obtain ⟨bytes, hrest, hoffset, haccepts⟩ := read_delimited.framed _ _ _ hread
    obtain ⟨count, entries, hfits, hcount, rfl, rfl⟩ := accepts_read.1 haccepts
    exact ⟨count, entries, hfits, hcount, hrest, hoffset, comprises_ofEntries entries⟩

/-- Texts that are no UTF-8, wide entries in the middle and at the end, and bytes that follow. -/
def sampleEntries : List PoolEntry :=
  [.utf8 [0xED, 0xA0, 0x81], .long 7, .integer (-1), .methodHandle 6 2, .double 0]

theorem read_comprises_sample :
    slotCount sampleEntries = 8 ∧
      (∃ pool, read ⟨written 8 sampleEntries ++ [1, 2], 10⟩ = .ok pool ⟨[1, 2], 45⟩ ∧
        pool.size = 8 ∧ pool.get 4 = .ok (.integer (-1)) ∧
        pool.get 3 = .error (.format (.badIndex 3))) ∧
      ∃ c, read ⟨written 7 sampleEntries ++ [1, 2], 0⟩ = .error (.format .wideAtEnd) c := by
  have hfits : ∀ entry ∈ sampleEntries, entry.Fits := by decide
  obtain ⟨pool, hread, hpool⟩ := (read_comprises.1 sampleEntries hfits 8 [1, 2] 10).1 (by decide)
  refine ⟨by decide, ⟨pool, hread, hpool.size, (hpool.get 4 _).2 ⟨.integer (-1), ?_, rfl⟩, ?_⟩, ?_⟩
  · exact ⟨sampleEntries.take 2, sampleEntries.drop 3, rfl, by decide⟩
  · refine (hpool.missing 3 _).2 ⟨rfl, .inr (.inl ⟨.long 7, 2, ?_, by decide, rfl⟩)⟩
    exact ⟨sampleEntries.take 1, sampleEntries.drop 2, rfl, by decide⟩
  · exact (read_comprises.1 sampleEntries hfits 7 [1, 2] 0).2 ⟨.double 0, rfl, rfl⟩ (by decide)

end ConstantPool

end ResourceMerge

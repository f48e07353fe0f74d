import ResourceMerge.Proofs.PoolContents
import ResourceMerge.Proofs.Reading

/-! A constant pool as it stands in a class file, with every kind of entry that the format has. An
    entry is a tag and its parts; a text is any bytes behind their number, and becomes a string as
    far as it is one. An entry of eight bytes takes two slots, the second of which nothing can use,
    so slots and entries are numbered apart from each other from there on. The reader fills the
    slots in this way, whatever the entries are. -/

namespace ResourceMerge

open Binary

/-- An entry of a constant pool, with all that its form holds. -/
inductive PoolEntry where
  | utf8 (text : List UInt8)
  | integer (value : Int32)
  | float (bits : UInt32)
  | long (bits : UInt64)
  | double (bits : UInt64)
  | classRef (name : UInt16)
  | string (value : UInt16)
  | fieldRef (owner nameAndType : UInt16)
  | methodRef (owner nameAndType : UInt16)
  | interfaceMethodRef (owner nameAndType : UInt16)
  | nameAndType (name descriptor : UInt16)
  | methodHandle (kind : UInt8) (reference : UInt16)
  | methodType (descriptor : UInt16)
  | dynamic (bootstrap nameAndType : UInt16)
  | invokeDynamic (bootstrap nameAndType : UInt16)
  | moduleRef (name : UInt16)
  | packageRef (name : UInt16)
  deriving DecidableEq

namespace PoolEntry

/-- The entry in the form it has in a class file. -/
def bytes : PoolEntry → List UInt8
  | .utf8 text => 1 :: (u16 (UInt16.ofNat text.length) ++ text)
  | .integer value => 3 :: i32 value
  | .float bits => 4 :: u32 bits
  | .long bits => 5 :: u64 bits
  | .double bits => 6 :: u64 bits
  | .classRef name => 7 :: u16 name
  | .string value => 8 :: u16 value
  | .fieldRef owner member => 9 :: (u16 owner ++ u16 member)
  | .methodRef owner member => 10 :: (u16 owner ++ u16 member)
  | .interfaceMethodRef owner member => 11 :: (u16 owner ++ u16 member)
  | .nameAndType name descriptor => 12 :: (u16 name ++ u16 descriptor)
  | .methodHandle kind reference => 15 :: kind :: u16 reference
  | .methodType descriptor => 16 :: u16 descriptor
  | .dynamic bootstrap member => 17 :: (u16 bootstrap ++ u16 member)
  | .invokeDynamic bootstrap member => 18 :: (u16 bootstrap ++ u16 member)
  | .moduleRef name => 19 :: u16 name
  | .packageRef name => 20 :: u16 name

/-- What a reader keeps of the entry: of some kinds the tag alone. -/
def constant : PoolEntry → Constant
  | .utf8 text => .utf8 (Text.lossy text)
  | .integer value => .integer value
  | .float bits => .float bits
  | .long bits => .long bits
  | .double bits => .double bits
  | .classRef name => .classRef name
  | .string value => .string value
  | .fieldRef owner member => .fieldRef owner member
  | .methodRef owner member => .methodRef owner member false
  | .interfaceMethodRef owner member => .methodRef owner member true
  | .nameAndType name descriptor => .nameAndType name descriptor
  | .methodHandle _ _ => .uninterpreted 15
  | .methodType _ => .uninterpreted 16
  | .dynamic _ _ => .uninterpreted 17
  | .invokeDynamic _ _ => .uninterpreted 18
  | .moduleRef _ => .uninterpreted 19
  | .packageRef _ => .uninterpreted 20

/-- The slots that the entry takes. -/
def slots : PoolEntry → List (Option Constant)
  | .long bits => [some (.long bits), none]
  | .double bits => [some (.double bits), none]
  | entry => [some entry.constant]

/-- Has the entry eight bytes of its own? -/
def isWide : PoolEntry → Bool
  | .long _ | .double _ => true
  | _ => false

/-- How many slots the entry takes. -/
def width (entry : PoolEntry) : Nat := if entry.isWide then 2 else 1

theorem width_pos (entry : PoolEntry) : 1 ≤ entry.width := by
  unfold width
  split <;> omega

theorem isWide_constant (entry : PoolEntry) : entry.constant.isWide = entry.isWide := by
  cases entry <;> rfl

theorem slots_eq (entry : PoolEntry) :
    entry.slots = some entry.constant :: if entry.isWide then [none] else [] := by
  cases entry <;> rfl

theorem length_slots (entry : PoolEntry) : entry.slots.length = entry.width := by
  cases entry <;> rfl

/-- The length of a text has sixteen bits. -/
def Fits : PoolEntry → Prop
  | .utf8 text => text.length ≤ 65535
  | _ => True

instance : DecidablePred Fits := fun entry =>
  match entry with
  | .utf8 text => inferInstanceAs (Decidable (text.length ≤ 65535))
  | .integer _ | .float _ | .long _ | .double _ | .classRef _ | .string _ | .fieldRef _ _
  | .methodRef _ _ | .interfaceMethodRef _ _ | .nameAndType _ _ | .methodHandle _ _ | .methodType _
  | .dynamic _ _ | .invokeDynamic _ _ | .moduleRef _ | .packageRef _ => isTrue trivial

theorem utf8_reads {text : List UInt8} (h : text.length ≤ 65535) (slot : Nat) :
    Reads (ConstantPool.readConstant slot) (PoolEntry.utf8 text).bytes
      (.utf8 (Text.lossy text)) := by
  have hsize : (UInt16.ofNat text.length).toNat = text.length := by
    rw [UInt16.toNat_ofNat']
    omega
  have htext := (Reads.take text).map fun bytes => Constant.utf8 (Text.lossy bytes)
  rw [← hsize] at htext
  have hbody : Reads (do
      let size ← Reader.u16
      return Constant.utf8 (Text.lossy (← Reader.take size.toNat)))
      (u16 (UInt16.ofNat text.length) ++ text) (.utf8 (Text.lossy text)) :=
    (Reads.u16 _).bind htext
  exact (Reads.u8 1).bind hbody

/-- Entries that refer to two others have one form. -/
theorem pair_reads (first second : UInt16) (make : UInt16 → UInt16 → Constant) :
    Reads (do return make (← Reader.u16) (← Reader.u16)) (u16 first ++ u16 second)
      (make first second) :=
  (Reads.u16 first).bind ((Reads.u16 second).map (make first))

/-- The parts that a reader does not look into are stepped over. -/
theorem skipped_reads (parts : List UInt8) (c : Constant) :
    Reads (do Reader.skip parts.length; return c) parts c :=
  (Reads.skip parts).map fun _ => c

/-- Every kind of entry is read from its form, in whatever slot it stands. -/
theorem reads {entry : PoolEntry} (h : entry.Fits) (slot : Nat) :
    Reads (ConstantPool.readConstant slot) entry.bytes entry.constant := by
  cases entry with
  | utf8 text => exact utf8_reads h slot
  | integer v => exact (Reads.u8 3).bind ((Reads.i32 v).map Constant.integer)
  | float b => exact (Reads.u8 4).bind ((Reads.u32 b).map Constant.float)
  | long b => exact (Reads.u8 5).bind ((Reads.u64 b).map Constant.long)
  | double b => exact (Reads.u8 6).bind ((Reads.u64 b).map Constant.double)
  | classRef n => exact (Reads.u8 7).bind ((Reads.u16 n).map Constant.classRef)
  | string n => exact (Reads.u8 8).bind ((Reads.u16 n).map Constant.string)
  | fieldRef o nt => exact (Reads.u8 9).bind (pair_reads o nt Constant.fieldRef)
  | methodRef o nt => exact (Reads.u8 10).bind (pair_reads o nt (Constant.methodRef · · false))
  | interfaceMethodRef o nt =>
    exact (Reads.u8 11).bind (pair_reads o nt (Constant.methodRef · · true))
  | nameAndType n d => exact (Reads.u8 12).bind (pair_reads n d Constant.nameAndType)
  | methodHandle k n => exact (Reads.u8 15).bind (skipped_reads (k :: u16 n) (.uninterpreted 15))
  | methodType n => exact (Reads.u8 16).bind (skipped_reads (u16 n) (.uninterpreted 16))
  | dynamic b nt => exact (Reads.u8 17).bind (skipped_reads (u16 b ++ u16 nt) (.uninterpreted 17))
  | invokeDynamic b nt =>
    exact (Reads.u8 18).bind (skipped_reads (u16 b ++ u16 nt) (.uninterpreted 18))
  | moduleRef n => exact (Reads.u8 19).bind (skipped_reads (u16 n) (.uninterpreted 19))
  | packageRef n => exact (Reads.u8 20).bind (skipped_reads (u16 n) (.uninterpreted 20))

end PoolEntry

namespace ConstantPool

/-- The pool that a list of entries makes: slot zero, then the slots of each entry. -/
def ofEntries (entries : List PoolEntry) : ConstantPool :=
  ⟨(Option.none :: entries.flatMap PoolEntry.slots).toArray⟩

/-- A pool in the form it has in a class file: its number of slots, then its entries. -/
def layout (entries : List PoolEntry) : List UInt8 :=
  u16 (UInt16.ofNat (ofEntries entries).size) ++ entries.flatMap PoolEntry.bytes

theorem size_ofEntries (entries : List PoolEntry) :
    (ofEntries entries).size = (entries.flatMap PoolEntry.slots).length + 1 := by
  simp [size, ofEntries]

/-- What is read behind a constant, which has one of the slots left or two. -/
def readBehind (slots : Array (Option Constant)) (count : Nat) (c : Constant) :
    Reader (Array (Option Constant)) :=
  if c.isWide then
    match count with
    | 0 => Reader.fail (.format .wideAtEnd)
    | count + 1 => readSlots ((slots.push (some c)).push Option.none) count
  else readSlots (slots.push (some c)) count

theorem readSlots_succ (slots : Array (Option Constant)) (count : Nat) :
    readSlots slots (count + 1) = readConstant slots.size >>= readBehind slots count := by
  cases count <;> rfl

/-- Behind an entry for which there is room, the slots that it leaves are filled. -/
theorem readBehind_eq {slots : Array (Option Constant)} {count left : Nat} {entry : PoolEntry}
    (h : count + 1 = entry.width + left) :
    readBehind slots count entry.constant = readSlots (slots ++ entry.slots.toArray) left := by
  rw [readBehind.eq_def, PoolEntry.isWide_constant, PoolEntry.slots_eq]
  unfold PoolEntry.width at h
  cases hwide : entry.isWide with
  | false =>
    rw [hwide, if_neg Bool.false_ne_true, Nat.add_comm, Nat.add_left_cancel_iff] at h
    simp [h]
  | true =>
    rw [hwide, if_pos rfl, Nat.add_comm 2, Nat.add_right_cancel_iff] at h
    have htwo : (slots.push (some entry.constant)).push Option.none
        = slots ++ [some entry.constant, Option.none].toArray := by
      simp [← Array.toList_inj]
    simp only [h, if_true, htwo]

/-- An entry that is wider than the slots left is refused. -/
theorem readBehind_of_lt {slots : Array (Option Constant)} {count : Nat} {entry : PoolEntry}
    (h : count + 1 < entry.width) :
    readBehind slots count entry.constant = Reader.fail (.format .wideAtEnd) := by
  rw [readBehind.eq_def, PoolEntry.isWide_constant]
  unfold PoolEntry.width at h
  cases hwide : entry.isWide with
  | false =>
    rw [hwide, if_neg Bool.false_ne_true] at h
    omega
  | true =>
    rw [hwide, if_pos rfl] at h
    obtain rfl : count = 0 := by omega
    rfl

/-- An entry is taken first, and then what is behind it. -/
theorem readSlots_entry {entry : PoolEntry} (h : entry.Fits) (slots : Array (Option Constant))
    (count : Nat) (rest : List UInt8) (offset : Nat) :
    readSlots slots (count + 1) ⟨entry.bytes ++ rest, offset⟩
      = readBehind slots count entry.constant ⟨rest, offset + entry.bytes.length⟩ := by
  simp only [readSlots_succ, Bind.bind, EStateM.bind, PoolEntry.reads h slots.size rest offset]

/-- Entries fill their slots in their order, and what is behind them fills the others. -/
theorem readSlots_entries : ∀ {entries : List PoolEntry}, (∀ entry ∈ entries, entry.Fits) →
    ∀ (slots : Array (Option Constant)) (count : Nat) (rest : List UInt8) (offset : Nat),
      readSlots slots ((entries.flatMap PoolEntry.slots).length + count)
          ⟨entries.flatMap PoolEntry.bytes ++ rest, offset⟩
        = readSlots (slots ++ (entries.flatMap PoolEntry.slots).toArray) count
          ⟨rest, offset + (entries.flatMap PoolEntry.bytes).length⟩
  | [], _, slots, count, rest, offset => by simp
  | entry :: entries, h, slots, count, rest, offset => by
    rw [List.forall_mem_cons] at h
    obtain ⟨more, hwidth⟩ := Nat.exists_eq_add_of_le' entry.width_pos
    have hcount : ((entry :: entries).flatMap PoolEntry.slots).length + count
        = more + ((entries.flatMap PoolEntry.slots).length + count) + 1 := by
      rw [List.flatMap_cons, List.length_append, PoolEntry.length_slots]
      omega
    have hroom : more + ((entries.flatMap PoolEntry.slots).length + count) + 1
        = entry.width + ((entries.flatMap PoolEntry.slots).length + count) := by
      omega
    rw [hcount, List.flatMap_cons, List.append_assoc, readSlots_entry h.1, readBehind_eq hroom,
      readSlots_entries h.2]
    simp [Nat.add_assoc]

/-- Entries are read into the slots that they take. -/
theorem entries_fill {entries : List PoolEntry} (h : ∀ entry ∈ entries, entry.Fits)
    (slots : Array (Option Constant)) :
    Reads (readSlots slots (entries.flatMap PoolEntry.slots).length)
      (entries.flatMap PoolEntry.bytes) (slots ++ (entries.flatMap PoolEntry.slots).toArray) :=
  fun rest offset => readSlots_entries h slots 0 rest offset

/-- A pool is read from its form, as long as its number of slots has sixteen bits. -/
theorem layout_reads {entries : List PoolEntry} (h : ∀ entry ∈ entries, entry.Fits)
    (hsize : (ofEntries entries).size ≤ 65535) :
    Reads read (layout entries) (ofEntries entries) := by
  refine (Reads.u16 _).bind ?_
  have hcount : (UInt16.ofNat (ofEntries entries).size).toNat - 1
      = (entries.flatMap PoolEntry.slots).length := by
    rw [UInt16.toNat_ofNat', size_ofEntries] at *
    omega
  have hslots := (entries_fill h #[Option.none]).map ConstantPool.mk
  rw [hcount]
  simpa [ofEntries] using hslots

end ConstantPool

end ResourceMerge

import Std.Data.TreeMap
import ResourceMerge.Binary.BigEndian
import ResourceMerge.Error
import ResourceMerge.Text.Utf8

/-! A constant pool under construction. Each distinct entry gets one slot, numbered from one in the
    order of first use, and asking for an entry again gives the slot it has. A compound entry first
    asks for the entries it refers to; when the pool is full in the middle of it, those stay. The
    number of slots, slot zero included, is at most 65534.

    Beside the entries in order stands an index by which an entry is found; the draft carries the
    proof that both say the same, so that what holds of the entries holds of what is found. -/

namespace ResourceMerge

/-- The entries of a pool under construction, the first of them in slot one. -/
structure PoolDraft where
  entries : Array Constant
  index : Std.TreeMap Constant Nat
  index_iff : ∀ (constant : Constant) (i : Nat),
    index[constant]? = some i ↔ entries[i]? = some constant
  size_le : entries.size ≤ 65533

namespace PoolDraft

/-- The draft without entries. -/
def empty : PoolDraft where
  entries := #[]
  index := ∅
  index_iff := by simp
  size_le := by simp

instance : Inhabited PoolDraft := ⟨empty⟩

/-- What the index answers after a new entry, and where the entry stands. -/
theorem insert_iff {draft : PoolDraft} {constant : Constant}
    (fresh : draft.index[constant]? = none) (other : Constant) (i : Nat) :
    (draft.index.insert constant draft.entries.size)[other]? = some i ↔
      (draft.entries.push constant)[i]? = some other := by
  rw [Std.TreeMap.getElem?_insert, Array.getElem?_push]
  by_cases hc : constant = other
  · subst hc
    rw [if_pos Std.ReflOrd.compare_self]
    by_cases hi : i = draft.entries.size
    · simp [hi]
    · rw [if_neg hi, ← draft.index_iff, fresh]
      simp [Ne.symm hi]
  · rw [if_neg (fun h => hc (Std.LawfulEqOrd.eq_of_compare h)), draft.index_iff]
    by_cases hi : i = draft.entries.size
    · simp [hi, hc]
    · rw [if_neg hi]

/-- An entry that is not there yet, in the next slot. -/
def add (draft : PoolDraft) (constant : Constant) (fresh : draft.index[constant]? = none)
    (room : draft.entries.size < 65533) : PoolDraft :=
  -- the size is taken before the entry is appended, so that the array is not copied
  let next := draft.entries.size
  ⟨draft.entries.push constant, draft.index.insert constant next, insert_iff fresh,
    by rw [Array.size_push]; omega⟩

/-- The number of slots, slot zero included. -/
def count (draft : PoolDraft) : UInt16 := UInt16.ofNat (draft.entries.size + 1)

/-- The count fits its sixteen bits. -/
theorem count_toNat (draft : PoolDraft) : draft.count.toNat = draft.entries.size + 1 := by
  have := draft.size_le
  simp [count]
  omega

/-- A request to a draft; the draft it leaves is kept also when it fails. -/
abbrev Request := EStateM Error PoolDraft

/-- The slot of an entry, new or old. -/
def intern (constant : Constant) : Request UInt16 := fun draft =>
  match fresh : draft.index[constant]? with
  | some i => .ok (UInt16.ofNat (i + 1)) draft
  | none =>
    if room : draft.entries.size < 65533 then
      let slot := draft.count
      .ok slot (draft.add constant fresh room)
    else .error (.format .poolFull) draft

/-- The slot of a text, which takes at most 65535 bytes. -/
def utf8 (text : String) : Request UInt16 := do
  if text.utf8ByteSize > 65535 then throw (.format (.utf8TooLong text.utf8ByteSize))
  intern (.utf8 text)

/-- The slot of an integer. -/
def integer (value : Int32) : Request UInt16 := intern (.integer value)

/-- The slot of a class. -/
def classRef (name : String) : Request UInt16 := do
  let name ← utf8 name
  intern (.classRef name)

/-- The slot of a name with a type descriptor. -/
def nameAndType (name descriptor : String) : Request UInt16 := do
  let name ← utf8 name
  let descriptor ← utf8 descriptor
  intern (.nameAndType name descriptor)

/-- The slot of a reference to a field. -/
def fieldRef (field : FieldRef) : Request UInt16 := do
  let owner ← classRef field.owner
  let nameAndType ← nameAndType field.name field.descriptor
  intern (.fieldRef owner nameAndType)

/-- An entry as it stands in a class file; only the kinds that a request can ask for have a form. -/
def writeConstant : Constant → Except Error (List UInt8)
  | .utf8 text =>
    .ok (1 :: Binary.u16 (UInt16.ofNat text.utf8ByteSize) ++ Text.utf8 text)
  | .integer value => .ok (3 :: Binary.i32 value)
  | .classRef name => .ok (7 :: Binary.u16 name)
  | .fieldRef owner nameAndType => .ok (9 :: Binary.u16 owner ++ Binary.u16 nameAndType)
  | .nameAndType name descriptor => .ok (12 :: Binary.u16 name ++ Binary.u16 descriptor)
  | other => .error (.format (.unwritable other))

/-- The number of slots and the entries in order, in the form they have in a class file. -/
def write (draft : PoolDraft) : Except Error (List UInt8) := do
  let entries ← draft.entries.toList.mapM writeConstant
  return Binary.u16 draft.count ++ entries.flatten

end PoolDraft

end ResourceMerge

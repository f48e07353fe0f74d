import ResourceMerge.Binary.Cursor
import ResourceMerge.Text.Utf8

/-! The constant pool of a class file that is read. A pool begins with its number of slots; slot
    zero holds nothing, and neither does the slot behind an entry of eight bytes. A look-up names
    the kind of entry it expects, follows references from entry to entry, and reports the first
    entry that is missing or of another kind. -/

namespace ResourceMerge

open Binary

/-- The slots of a pool, slot zero included; an unusable slot is empty. -/
structure ConstantPool where
  slots : Array (Option Constant)

namespace ConstantPool

/-- The pool that has no slot at all. -/
def none : ConstantPool := ⟨#[]⟩

/-- How many slots there are. -/
def size (pool : ConstantPool) : Nat := pool.slots.size

/-- An entry that begins with the tag `tag`, meant for a slot. -/
def readTagged (slot : Nat) (tag : UInt8) : Reader Constant :=
  match tag.toNat with
  | 1 => do
    let size ← Reader.u16
    return .utf8 (Text.lossy (← Reader.take size.toNat))
  | 3 => return .integer (← Reader.i32)
  | 4 => return .float (← Reader.u32)
  | 5 => return .long (← Reader.u64)
  | 6 => return .double (← Reader.u64)
  | 7 => return .classRef (← Reader.u16)
  | 8 => return .string (← Reader.u16)
  | 9 => return .fieldRef (← Reader.u16) (← Reader.u16)
  | 10 => return .methodRef (← Reader.u16) (← Reader.u16) false
  | 11 => return .methodRef (← Reader.u16) (← Reader.u16) true
  | 12 => return .nameAndType (← Reader.u16) (← Reader.u16)
  | 15 => do Reader.skip 3; return .uninterpreted tag
  | 16 | 19 | 20 => do Reader.skip 2; return .uninterpreted tag
  | 17 | 18 => do Reader.skip 4; return .uninterpreted tag
  | _ => Reader.fail (.format (.unknownTag tag slot))

/-- One entry, meant for a slot. -/
def readConstant (slot : Nat) : Reader Constant := do readTagged slot (← Reader.u8)

/-- Entries for `count` slots behind those of `slots`. -/
def readSlots (slots : Array (Option Constant)) : (count : Nat) → Reader (Array (Option Constant))
  | 0 => pure slots
  | count + 1 => do
    let constant ← readConstant slots.size
    if constant.isWide then
      match count with
      | 0 => Reader.fail (.format .wideAtEnd)
      | count + 1 => readSlots ((slots.push (some constant)).push Option.none) count
    else readSlots (slots.push (some constant)) count

/-- A pool behind its number of slots; zero slots are read like one. -/
def read : Reader ConstantPool := do
  let count ← Reader.u16
  return ⟨← readSlots #[Option.none] (count.toNat - 1)⟩

/-- The entry in a slot. -/
def get (pool : ConstantPool) (index : UInt16) : Except Error Constant :=
  match pool.slots[index.toNat]? with
  | some (some constant) => .ok constant
  | _ => .error (.format (.badIndex index))

/-- The text in a slot. -/
def utf8 (pool : ConstantPool) (index : UInt16) : Except Error String := do
  match ← pool.get index with
  | .utf8 text => .ok text
  | other => .error (.format (.notUtf8 index other))

/-- The name of the class in a slot. -/
def className (pool : ConstantPool) (index : UInt16) : Except Error String := do
  match ← pool.get index with
  | .classRef name => pool.utf8 name
  | other => .error (.format (.notClass index other))

/-- The integer in a slot; none if the slot holds a constant of another kind. -/
def integer? (pool : ConstantPool) (index : UInt16) : Except Error (Option Int32) := do
  match ← pool.get index with
  | .integer value => .ok (some value)
  | _ => .ok Option.none

/-- The field referred to in a slot. -/
def field (pool : ConstantPool) (index : UInt16) : Except Error FieldRef := do
  match ← pool.get index with
  | .fieldRef owner nameAndType =>
    match ← pool.get nameAndType with
    | .nameAndType name descriptor =>
      return ⟨← pool.className owner, ← pool.utf8 name, ← pool.utf8 descriptor⟩
    | _ => .error (.format (.notNameAndType nameAndType))
  | _ => .error (.format (.notFieldRef index))

end ConstantPool

end ResourceMerge

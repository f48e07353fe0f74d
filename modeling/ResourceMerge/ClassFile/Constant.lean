import ResourceMerge.Text.Quoted

/-! Entries of a class file's constant pool. An entry refers to others by their slot number.
    Floating point numbers are kept as their bits, and the kinds that no reader here looks into
    (method handles and types, dynamic constants, modules, packages) as their tag alone.

    Constants are ordered by their text, then by their numbers, kind first. The order carries no
    meaning of its own; it is what lets a pool under construction find an entry again quickly. -/

namespace ResourceMerge

/-- One entry of a constant pool. -/
inductive Constant where
  | utf8 (text : String)
  | integer (value : Int32)
  | float (bits : UInt32)
  | long (bits : UInt64)
  | double (bits : UInt64)
  | classRef (name : UInt16)
  | string (value : UInt16)
  | fieldRef (owner nameAndType : UInt16)
  | methodRef (owner nameAndType : UInt16) (ofInterface : Bool)
  | nameAndType (name descriptor : UInt16)
  | uninterpreted (tag : UInt8)
  deriving DecidableEq

namespace Constant

/-- Does the entry take two slots? -/
def isWide : Constant → Bool
  | .long _ | .double _ => true
  | _ => false

/-- The entry as messages show it. -/
def text : Constant → String
  | .utf8 s => "Utf8(" ++ Text.quoted s ++ ")"
  | .integer v => "Integer(" ++ Text.signed v ++ ")"
  | .float b => "Float(" ++ toString b ++ ")"
  | .long b => "Long(" ++ toString b ++ ")"
  | .double b => "Double(" ++ toString b ++ ")"
  | .classRef n => "Class \x7b name: " ++ toString n ++ " \x7d"
  | .string v => "String \x7b value: " ++ toString v ++ " \x7d"
  | .fieldRef o nt =>
    "FieldRef \x7b class: " ++ toString o ++ ", name_and_type: " ++ toString nt ++ " \x7d"
  | .methodRef o nt i =>
    "MethodRef \x7b class: " ++ toString o ++ ", name_and_type: " ++ toString nt
      ++ ", interface: " ++ toString i ++ " \x7d"
  | .nameAndType n d =>
    "NameAndType \x7b name: " ++ toString n ++ ", descriptor: " ++ toString d ++ " \x7d"
  | .uninterpreted t => "Opaque \x7b tag: " ++ toString t ++ " \x7d"

/-- The text part of an entry. -/
def words : Constant → String
  | .utf8 s => s
  | _ => ""

/-- The kind of an entry, then its numbers. -/
def numbers : Constant → List Nat
  | .utf8 _ => [0]
  | .integer v => [1, v.toUInt32.toNat]
  | .float b => [2, b.toNat]
  | .long b => [3, b.toNat]
  | .double b => [4, b.toNat]
  | .classRef n => [5, n.toNat]
  | .string v => [6, v.toNat]
  | .fieldRef o nt => [7, o.toNat, nt.toNat]
  | .methodRef o nt i => [8, o.toNat, nt.toNat, i.toNat]
  | .nameAndType n d => [9, n.toNat, d.toNat]
  | .uninterpreted t => [10, t.toNat]

/-- A signed word is known by its bits. -/
theorem eq_of_sameBits {v w : Int32} (h : v.toUInt32 = w.toUInt32) : v = w :=
  Int32.toBitVec_inj.1 (congrArg UInt32.toBitVec h)

/-- Text and numbers together tell any two entries apart. -/
theorem eq_of_key {a b : Constant} (hw : a.words = b.words) (hn : a.numbers = b.numbers) :
    a = b := by
  cases a <;> cases b <;>
    simp_all only [words, numbers, List.cons.injEq, and_true, true_and, reduceCtorEq,
      UInt8.toNat_inj, UInt16.toNat_inj, UInt32.toNat_inj, UInt64.toNat_inj]
    <;> try omega
  case integer.integer => exact congrArg _ (eq_of_sameBits hn)
  case methodRef.methodRef i _ _ j => cases i <;> cases j <;> simp_all

instance : Ord Constant where
  compare := compareLex (compareOn words) (compareOn numbers)

instance : Std.TransOrd Constant :=
  inferInstanceAs (Std.TransCmp (compareLex (compareOn words) (compareOn numbers)))

instance : Std.LawfulEqOrd Constant where
  eq_of_compare {a b} h := by
    have h' : (compareOn words a b).then (compareOn numbers a b) = .eq := h
    rw [Ordering.then_eq_eq] at h'
    exact eq_of_key (Std.LawfulEqOrd.eq_of_compare h'.1) (Std.LawfulEqOrd.eq_of_compare h'.2)

end Constant

end ResourceMerge

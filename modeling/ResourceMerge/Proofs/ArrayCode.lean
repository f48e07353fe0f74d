import ResourceMerge.MergedClass
import ResourceMerge.Proofs.BodyRoundTrip

/-! The instructions that build the arrays of a table, as they are read back. A push of a value from
    -128 upwards is read back with its value; the byte form, which takes every negative value, keeps
    of those below -128 only the low eight bits. Lengths and indices are not negative, and a body
    that fits its limit is too short for an array whose length exceeds an operand. -/

namespace ResourceMerge

/-- What is left of an array element after it was written and read again. -/
def kept (v : Int32) : Int32 := if v < -128 then v.toInt8.toInt32 else v

/-- The instruction pushes an integer. -/
def Instruction.Pushes (insn : Instruction) (v : Int32) : Prop :=
  insn = .pushSmall v ∨ insn = .pushByte v ∨ insn = .pushShort v ∨ insn = .pushConstant v

namespace MergedClass

/-! ### Pushes -/

/-- A number that is cut to fewer bits and widened again stays what it is if these bits hold it. -/
theorem eq_of_toInt_bmod (half : Nat) {v w : Int32} (h : w.toInt = v.toInt.bmod (2 * half))
    (hlow : -half ≤ v.toInt) (hhigh : v.toInt < half) : w = v := by
  rw [← Int32.toInt_inj, h]
  exact Int.bmod_eq_of_le (by omega) (by omega)

theorem toInt8_toInt32 {v : Int32} (hlow : -128 ≤ v.toInt) (hhigh : v.toInt ≤ 127) :
    v.toInt8.toInt32 = v :=
  eq_of_toInt_bmod 128 (by rw [Int8.toInt_toInt32, Int32.toInt_toInt8]) hlow
    (Int.lt_add_one_of_le hhigh)

theorem toInt16_toInt32 {v : Int32} (hlow : -32768 ≤ v.toInt) (hhigh : v.toInt ≤ 32767) :
    v.toInt16.toInt32 = v :=
  eq_of_toInt_bmod 32768 (by rw [Int16.toInt_toInt32, Int32.toInt_toInt16]) hlow
    (Int.lt_add_one_of_le hhigh)

/-- The push chosen for a value pushes what is kept of it. -/
theorem push_pushes (v : Int32) : (Instruction.push v).reread.Pushes (kept v) := by
  unfold Instruction.push kept
  simp only [Int32.le_iff_toInt_le, Int32.lt_iff_toInt_lt, Int32.reduceToInt]
  split
  · rename_i hsmall
    rw [if_neg (by omega)]
    exact .inl rfl
  split
  · rename_i hbyte
    refine .inr (.inl ?_)
    split
    · rfl
    · rw [Instruction.reread, toInt8_toInt32 (by omega) hbyte]
  split
  · rename_i hshort
    rw [if_neg (by omega)]
    refine .inr (.inr (.inl ?_))
    rw [Instruction.reread, toInt16_toInt32 (by omega) hshort]
  · rw [if_neg (by omega)]
    exact .inr (.inr (.inr rfl))

/-- A length or an index that an operand can hold is that operand. -/
theorem sizeOperand_toInt {n : Nat} (h : n ≤ 2147483647) : (sizeOperand n).toInt = n := by
  rw [sizeOperand, if_pos h]
  exact Int32.toInt_ofNat_of_lt (Nat.lt_succ_of_le h)

theorem sizeOperand_toNat {n : Nat} (h : n ≤ 2147483647) : (sizeOperand n).toInt.toNat = n := by
  rw [sizeOperand_toInt h]
  exact Int.toNat_natCast n

theorem sizeOperand_nonneg (n : Nat) : 0 ≤ sizeOperand n := by
  rw [Int32.le_iff_toInt_le]
  by_cases h : n ≤ 2147483647
  · rw [sizeOperand_toInt h]
    exact Int.natCast_nonneg n
  · rw [sizeOperand, if_neg h]
    decide

theorem kept_of_nonneg {v : Int32} (h : 0 ≤ v) : kept v = v := by
  rw [kept, if_neg]
  rw [Int32.le_iff_toInt_le] at h
  rw [Int32.lt_iff_toInt_lt]
  simp only [Int32.reduceToInt] at h ⊢
  omega

/-- Lengths and indices are pushed as they are. -/
theorem sizeOperand_pushes (n : Nat) :
    (Instruction.push (sizeOperand n)).reread.Pushes (sizeOperand n) := by
  have h := push_pushes (sizeOperand n)
  rwa [kept_of_nonneg (sizeOperand_nonneg n)] at h

/-- The store at the end of an array is read back as it is. -/
theorem reread_storeField (owner name : String) :
    (Instruction.storeField (.intArray owner name)).reread
      = .storeField (.intArray owner name) := by
  simp [Instruction.reread, FieldRef.intArray]

/-! ### Lengths -/

/-- Code that builds arrays is longer than each of them: every value takes four instructions, and
    every array three more. -/
theorem length_le_of_mem {α : Type} (code : String × List Int32 → List α)
    {first second last : String × List Int32 → α} {element : Int32 × Nat → List α}
    (hcode : ∀ entry, code entry
      = first entry :: second entry :: (entry.2.zipIdx.flatMap element ++ [last entry]))
    (helement : ∀ place, (element place).length = 4) {arrays : List (String × List Int32)}
    {entry : String × List Int32} (h : entry ∈ arrays) (rest : List α) :
    4 * entry.2.length + 3 ≤ (arrays.flatMap code ++ rest).length := by
  have helements : (entry.2.zipIdx.flatMap element).length = 4 * entry.2.length := by
    rw [List.length_flatMap]
    simp [helement, Nat.mul_comm]
  have hlength : (code entry).length = 4 * entry.2.length + 3 := by
    simp [hcode, helements]
  have hpart : (code entry).Sublist (arrays.flatMap code) := by
    rw [List.flatMap_def]
    exact List.sublist_flatten_of_mem (List.mem_map_of_mem h)
  rw [← hlength]
  exact (hpart.trans (List.sublist_append_left _ rest)).length_le

/-- An array is no longer than the body that builds it. -/
theorem values_length_le {table : SymbolTable} (owner : String) {entry : String × List Int32}
    (h : entry ∈ table.arrays.entries) :
    4 * entry.2.length + 3 ≤ (initializer table owner).length :=
  length_le_of_mem (arrayInstructions owner) (fun _ => rfl) (fun _ => rfl) h _

end MergedClass

end ResourceMerge

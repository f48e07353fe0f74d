import ResourceMerge.ClassFile.MethodBody
import ResourceMerge.Proofs.PoolRequests
import ResourceMerge.Proofs.Reading

/-! Method bodies written and read again. An instruction is written as an opcode and its operands;
    an operand that names a constant or a field is a slot of the pool, which means the same in every
    later state of the pool. What is read again differs from what was written in two ways only: a
    narrow push has lost the bits that its operand has no room for, and a store into a field that
    is no integer array is not interpreted. -/

namespace ResourceMerge

open Binary

/-- What an instruction is once it was written and read again. -/
def Instruction.reread : Instruction → Instruction
  | .pushByte v => .pushByte v.toInt8.toInt32
  | .pushShort v => .pushShort v.toInt16.toInt32
  | .storeField field =>
    if field.descriptor = intArrayDescriptor then .storeField field else .other Opcode.putStatic
  | insn => insn

namespace MethodBody

variable {pool later : ConstantPool} {insn : Instruction} {bytes : List UInt8}

/-! ### One instruction -/

/-- Only values from zero to five have an opcode of their own. -/
theorem readInstruction_small {v : Int32} (h : 0 ≤ v ∧ v ≤ 5) :
    Reads (readInstruction pool) [Opcode.intConstant0 + UInt8.ofNat v.toInt.toNat]
      (.pushSmall v) := by
  have hcases : v = 0 ∨ v = 1 ∨ v = 2 ∨ v = 3 ∨ v = 4 ∨ v = 5 := by
    have h0 := Int32.le_iff_toInt_le.1 h.1
    have h5 := Int32.le_iff_toInt_le.1 h.2
    simp only [← Int32.toInt_inj, Int32.reduceToInt] at h0 h5 ⊢
    omega
  rcases hcases with rfl | rfl | rfl | rfl | rfl | rfl <;>
    exact .anywhere fun _ => (Reads.u8 _).bind (Reads.pure (Instruction.pushSmall _))

/-- An instruction with an operand is read by what is made of the operand. -/
theorem readInstruction_operand {α : Type} {op : UInt8} {r : Reader α} {f : α → Reader Instruction}
    {operand : List UInt8} {a : α} (hop : ∀ pc, readOperands pool pc op = r >>= f)
    (hr : Reads r operand a) (hf : Reads (f a) [] insn) :
    Reads (readInstruction pool) (op :: operand) insn := by
  have hoperand := hr.bind hf
  rw [List.append_nil] at hoperand
  refine .anywhere fun c => (Reads.u8 op).bind ?_
  rwa [hop]

theorem readInstruction_byte (v : Int8) :
    Reads (readInstruction pool) [Opcode.bytePush, v.toUInt8] (.pushByte v.toInt32) :=
  readInstruction_operand (fun _ => rfl) (Reads.i8 v) (Reads.pure _)

theorem readInstruction_short (v : Int16) :
    Reads (readInstruction pool) (Opcode.shortPush :: Binary.u16 v.toUInt16)
      (.pushShort v.toInt32) :=
  readInstruction_operand (fun _ => rfl) (Reads.i16 v) (Reads.pure _)

theorem loadConstant_reads {op : UInt8} {i : UInt16} {v : Int32}
    (h : pool.integer? i = .ok (some v)) : Reads (loadConstant pool op i) [] (.pushConstant v) :=
  (Reads.ofExcept h).bind (Reads.pure (Instruction.pushConstant v))

/-- A slot that a byte can name. -/
theorem toUInt8_toUInt16_of_le {i : UInt16} (hi : i ≤ 255) : i.toUInt8.toUInt16 = i := by
  rw [UInt16.le_iff_toNat_le] at hi
  rw [← UInt16.toNat_inj, UInt8.toNat_toUInt16, UInt16.toNat_toUInt8]
  exact Nat.mod_eq_of_lt (Nat.lt_succ_of_le hi)

theorem readInstruction_constant {i : UInt16} {v : Int32} (h : pool.integer? i = .ok (some v))
    (hi : i ≤ 255) :
    Reads (readInstruction pool) [Opcode.loadConstant, i.toUInt8] (.pushConstant v) :=
  readInstruction_operand (fun _ => rfl) (Reads.u8 i.toUInt8)
    (loadConstant_reads (by rwa [toUInt8_toUInt16_of_le hi]))

theorem readInstruction_constantWide {i : UInt16} {v : Int32}
    (h : pool.integer? i = .ok (some v)) :
    Reads (readInstruction pool) (Opcode.loadConstantWide :: Binary.u16 i) (.pushConstant v) :=
  readInstruction_operand (fun _ => rfl) (Reads.u16 i) (loadConstant_reads h)

theorem readInstruction_newArray :
    Reads (readInstruction pool) [Opcode.newArray, Opcode.intElement] .newIntArray :=
  readInstruction_operand (fun _ => rfl) (Reads.u8 Opcode.intElement) (Reads.pure _)

theorem readInstruction_dup : Reads (readInstruction pool) [Opcode.dup] .dup :=
  .anywhere fun _ => (Reads.u8 _).bind (Reads.pure Instruction.dup)

theorem readInstruction_arrayStore :
    Reads (readInstruction pool) [Opcode.intArrayStore] .arrayStore :=
  .anywhere fun _ => (Reads.u8 _).bind (Reads.pure Instruction.arrayStore)

theorem readInstruction_finish : Reads (readInstruction pool) [Opcode.leave] .finish :=
  .anywhere fun _ => (Reads.u8 _).bind (Reads.pure Instruction.finish)

theorem readInstruction_storeField {i : UInt16} {field : FieldRef} (h : pool.field i = .ok field) :
    Reads (readInstruction pool) (Opcode.putStatic :: Binary.u16 i)
      (Instruction.storeField field).reread := by
  let interpret (field : FieldRef) : Reader Instruction :=
    if field.descriptor = intArrayDescriptor then return Instruction.storeField field
    else return Instruction.other Opcode.putStatic
  have hinterpret : Reads (interpret field) [] (Instruction.storeField field).reread := by
    by_cases hd : field.descriptor = intArrayDescriptor
    · simp only [interpret, Instruction.reread, if_pos hd]
      exact Reads.pure _
    · simp only [interpret, Instruction.reread, if_neg hd]
      exact Reads.pure _
  exact readInstruction_operand (fun _ => rfl) (Reads.u16 i) ((Reads.ofExcept h).bind hinterpret)

/-! ### What encoding leaves -/

/-- The bytes of an instruction: read again in the pool, and in every pool that has its slots. -/
structure Encoded (pool : ConstantPool) (insn : Instruction) (bytes : List UInt8) : Prop where
  nonempty : bytes ≠ []
  reads : Reads (readInstruction pool) bytes insn.reread
  field : ∀ field, insn = .storeField field → ∃ i, pool.field i = .ok field

theorem encodeInstruction_ends (insn : Instruction) (draft : PoolDraft) :
    Ends (encodeInstruction insn) draft
      (fun bytes later => draft.Grows later ∧
        ∀ pool, later.frozen.Within pool → Encoded pool insn bytes)
      (fun _ later => draft.Grows later) := by
  cases insn with
  | pushSmall v =>
    rw [encodeInstruction]
    split
    · rename_i h
      exact .pure ⟨.refl draft, fun pool _ => ⟨by simp, readInstruction_small h, nofun⟩⟩
    · exact .throw (.refl draft)
  | pushByte v => exact .pure ⟨.refl draft, fun pool _ => ⟨by simp, readInstruction_byte _, nofun⟩⟩
  | pushShort v =>
    exact .pure ⟨.refl draft, fun pool _ => ⟨by simp, readInstruction_short _, nofun⟩⟩
  | pushConstant v =>
    refine (PoolDraft.integer_ends v draft).andThen ?_ fun _ _ h => h
    rintro i later ⟨hgrows, hi⟩
    split
    · rename_i hnarrow
      exact .pure ⟨hgrows, fun pool hpool =>
        ⟨by simp, readInstruction_constant (hpool.integer? hi) hnarrow, nofun⟩⟩
    · exact .pure ⟨hgrows, fun pool hpool =>
        ⟨by simp, readInstruction_constantWide (hpool.integer? hi), nofun⟩⟩
  | newIntArray => exact .pure ⟨.refl draft, fun pool _ => ⟨by simp, readInstruction_newArray, nofun⟩⟩
  | dup => exact .pure ⟨.refl draft, fun pool _ => ⟨by simp, readInstruction_dup, nofun⟩⟩
  | arrayStore =>
    exact .pure ⟨.refl draft, fun pool _ => ⟨by simp, readInstruction_arrayStore, nofun⟩⟩
  | storeField field =>
    refine (PoolDraft.fieldRef_ends field draft).andThen ?_ fun _ _ h => h
    rintro i later ⟨hgrows, hi⟩
    refine .pure ⟨hgrows, fun pool hpool =>
      ⟨by simp, readInstruction_storeField (hpool.field hi), ?_⟩⟩
    rintro field ⟨⟩
    exact ⟨i, hpool.field hi⟩
  | finish => exact .pure ⟨.refl draft, fun pool _ => ⟨by simp, readInstruction_finish, nofun⟩⟩
  | other opcode => exact .throw (.refl draft)

/-- The instructions of a body, one after the other; the pool grows all along. -/
theorem encodeInstructions_ends : ∀ (insns : List Instruction) (draft : PoolDraft),
    Ends (insns.mapM encodeInstruction) draft
      (fun chunks later => draft.Grows later ∧
        ∀ pool, later.frozen.Within pool → List.Forall₂ (Encoded pool) insns chunks)
      (fun _ later => draft.Grows later)
  | [], draft => .pure ⟨.refl draft, fun _ _ => .nil⟩
  | insn :: insns, draft => by
    rw [List.mapM_cons]
    refine (encodeInstruction_ends insn draft).andThen ?_ fun _ _ h => h
    rintro bytes middle ⟨hmiddle, hbytes⟩
    refine (encodeInstructions_ends insns middle).andThen ?_ fun _ _ h => hmiddle.trans h
    rintro chunks later ⟨hlater, hchunks⟩
    exact .pure ⟨hmiddle.trans hlater, fun pool hpool =>
      .cons (hbytes pool (hlater.within.trans hpool)) (hchunks pool hpool)⟩

/-! ### Whole bodies -/

/-- Every instruction takes a byte at least. -/
theorem length_le_of_encoded {insns : List Instruction} {chunks : List (List UInt8)}
    (h : List.Forall₂ (Encoded pool) insns chunks) : insns.length ≤ chunks.flatten.length := by
  induction h with
  | nil => simp
  | cons hinsn _ ih =>
    have := List.length_pos_iff.2 hinsn.nonempty
    simp only [List.length_cons, List.flatten_cons, List.length_append]
    omega

theorem readAllOnto_nil (done : List Instruction) (offset rounds : Nat) :
    readAllOnto pool done rounds ⟨[], offset⟩ = .ok done.reverse ⟨[], offset⟩ := by
  cases rounds <;> rfl

theorem readAllOnto_step {c : Cursor} (h : c.rest.isEmpty = false) (done : List Instruction)
    (rounds : Nat) :
    readAllOnto pool done (rounds + 1) c
      = (readInstruction pool >>= fun insn => readAllOnto pool (insn :: done) rounds) c := by
  change (if c.rest.isEmpty then _ else _ : Reader (List Instruction)) c = _
  rw [h]
  rfl

/-- A round for each instruction is enough, and more do no harm. -/
theorem readAllOnto_encoded {insns : List Instruction} {chunks : List (List UInt8)}
    (h : List.Forall₂ (Encoded pool) insns chunks) :
    ∀ (done : List Instruction) (offset : Nat) {rounds : Nat}, insns.length ≤ rounds →
      readAllOnto pool done rounds ⟨chunks.flatten, offset⟩
        = .ok (done.reverse ++ insns.map Instruction.reread)
            ⟨[], offset + chunks.flatten.length⟩ := by
  induction h with
  | nil =>
    intro done offset rounds _
    simpa using readAllOnto_nil done offset rounds
  | @cons insn bytes insns chunks hinsn _ ih =>
    intro done offset rounds hrounds
    obtain ⟨rounds, rfl⟩ : ∃ n, rounds = n + 1 := ⟨rounds - 1, by simp at hrounds; omega⟩
    rw [List.flatten_cons, readAllOnto_step (by simp [hinsn.nonempty]), bind_eq_ok]
    refine ⟨_, _, hinsn.reads chunks.flatten offset, ?_⟩
    rw [ih _ _ (by simpa using hrounds)]
    simp [Nat.add_assoc]

/-- A field that is stored into has a slot. -/
theorem field_of_encoded {insns : List Instruction} {chunks : List (List UInt8)}
    (h : List.Forall₂ (Encoded pool) insns chunks) {field : FieldRef}
    (hfield : .storeField field ∈ insns) : ∃ i, pool.field i = .ok field := by
  induction h with
  | nil => simp at hfield
  | cons hinsn _ ih =>
    rcases List.mem_cons.1 hfield with heq | hrest
    · exact hinsn.field field heq.symm
    · exact ih hrest

/-- What encoding a body promises: it decodes to what its instructions read as, in the pool that
    it leaves and in every later one; it has a byte for each instruction at least; and each field
    it stores into has a slot. -/
theorem encode_ends (insns : List Instruction) (draft : PoolDraft) :
    Ends (encode insns) draft
      (fun code later => draft.Grows later ∧ insns.length ≤ code.length ∧
        (∀ pool, later.frozen.Within pool →
          decode pool code = .ok (insns.map Instruction.reread)) ∧
        ∀ field, .storeField field ∈ insns → ∃ i, later.frozen.field i = .ok field)
      (fun _ later => draft.Grows later) := by
  refine (encodeInstructions_ends insns draft).andThen ?_ fun _ _ h => h
  rintro chunks later ⟨hgrows, hchunks⟩
  have hself := hchunks later.frozen (.refl _)
  refine .pure ⟨hgrows, length_le_of_encoded hself, fun pool hpool => ?_, fun field hfield => ?_⟩
  · have hpool' := hchunks pool hpool
    have hread := readAllOnto_encoded hpool' [] 0 (length_le_of_encoded hpool')
    rw [decode, Reader.read, Cursor.start, hread]
    rfl
  · exact field_of_encoded hself hfield

end MethodBody

end ResourceMerge

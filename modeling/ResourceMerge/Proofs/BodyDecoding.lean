import Mathlib.Tactic.IntervalCases
import ResourceMerge.Proofs.Acceptance
import ResourceMerge.Proofs.BodyRoundTrip
import ResourceMerge.Proofs.CodeLayout

/-! Which bodies decode, and to what. The reader of an instruction accepts exactly the bytes of a
    complete instruction that means something in the pool, and never looks beyond them, so the
    reader of a body accepts exactly the sequences of such instructions. -/

namespace ResourceMerge.MethodBody

open Binary

variable {pool : ConstantPool} {op : UInt8} {pc offset : Nat} {bytes : List UInt8}
  {insn : Instruction}

/-! ### Operands that are stepped over -/

theorem pads_iff {padding : List UInt8} :
    Pads pc padding ↔ padding.length = Opcode.switchPadding pc := by
  rw [Pads, Opcode.switchPadding]
  omega

theorem framed_skipForm (form : Opcode.Operands) : Framed (skipForm pc form) := by
  cases form with
  | fixed size => exact .skip size
  | tableSwitch =>
    exact (Framed.skip _).bind fun _ => (Framed.skip 4).bind fun _ => Framed.i32.bind fun _ =>
      Framed.i32.bind fun _ => Framed.guard (.skip _)
  | lookupSwitch =>
    exact (Framed.skip _).bind fun _ => (Framed.skip 4).bind fun _ => Framed.i32.bind fun _ =>
      Framed.guard (.skip _)
  | wide =>
    refine Framed.u8.bind fun inner => ?_
    cases Opcode.wideOperands? inner with
    | none => exact .fail _
    | some size => exact .skip size

/-- Stepping over operands takes all that the layout says. -/
theorem accepts_skipForm {form : Opcode.Operands} {u : Unit} :
    Accepts (skipForm pc form) offset bytes u ↔ OperandBytes pc form bytes := by
  cases form with
  | fixed size =>
    refine accepts_skip.trans ⟨.fixed, ?_⟩
    rintro ⟨hsize⟩
    exact hsize
  | tableSwitch =>
    simp only [skipForm, accepts_bind (Framed.skip _), accepts_bind Framed.i32, accepts_skip,
      accepts_i32, fault, accepts_guard]
    constructor
    · rintro ⟨padding, _, -, rfl, hpadding, defaultTarget, _, -, rfl, hdefault, _, _, low, rfl, rfl,
        _, targets, high, rfl, rfl, hrange, htargets⟩
      exact .tableSwitch (pads_iff.2 hpadding) hdefault (by omega) (by omega)
    · rintro ⟨⟩
      rename_i padding defaultTarget targets low high hpadding hdefault hrange htargets
      exact ⟨padding, _, (), rfl, pads_iff.1 hpadding, defaultTarget, _, (), rfl, hdefault, _, _,
        low, rfl, rfl, _, targets, high, rfl, rfl, by omega, by omega⟩
  | lookupSwitch =>
    simp only [skipForm, accepts_bind (Framed.skip _), accepts_bind Framed.i32, accepts_skip,
      accepts_i32, fault, accepts_guard, Int32.lt_iff_toInt_lt, Int32.toInt_zero]
    constructor
    · rintro ⟨padding, _, -, rfl, hpadding, defaultTarget, _, -, rfl, hdefault, _, pairs, count, rfl,
        rfl, hcount, hpairs⟩
      exact .lookupSwitch (pads_iff.2 hpadding) hdefault (by omega) (by omega)
    · rintro ⟨⟩
      rename_i padding defaultTarget pairs count hpadding hdefault hcount hpairs
      exact ⟨padding, _, (), rfl, pads_iff.1 hpadding, defaultTarget, _, (), rfl, hdefault, _, pairs,
        count, rfl, rfl, by omega, by omega⟩
  | wide =>
    simp only [skipForm, accepts_bind Framed.u8, accepts_u8, Opcode.wideOperands?_eq_lookup]
    constructor
    · rintro ⟨_, bytes, inner, rfl, rfl, h⟩
      cases hinner : Opcode.widened.lookup inner with
      | none => exact absurd (hinner ▸ h) not_accepts_fail
      | some size => exact .wide hinner (accepts_skip.1 (hinner ▸ h))
    · rintro ⟨⟩
      rename_i inner size bytes hinner hsize
      refine ⟨_, bytes, inner, rfl, rfl, ?_⟩
      rw [hinner]
      exact accepts_skip.2 hsize

theorem framed_skipOperands : Framed (skipOperands op pc) := by
  unfold skipOperands
  cases Opcode.operands? op with
  | none => exact .fail _
  | some form => exact framed_skipForm form

/-- Behind an opcode these are complete operands. -/
theorem accepts_skipOperands {u : Unit} :
    Accepts (skipOperands op pc) offset bytes u ↔ CodeUnit.Complete pc ⟨op, bytes⟩ := by
  unfold skipOperands CodeUnit.Complete
  rw [Opcode.operands?_eq_form?]
  cases Opcode.form? op with
  | none => exact iff_of_false not_accepts_fail (by simp)
  | some form => simp [accepts_skipForm]

/-! ### One instruction -/

theorem framed_loadConstant (index : UInt16) : Framed (loadConstant pool op index) := by
  refine (Framed.ofExcept _).bind fun v => ?_
  cases v with
  | none => exact .pure _
  | some v => exact .pure _

theorem framed_readOperands : Framed (readOperands pool pc op) := by
  unfold readOperands
  refine .ite ?_ (.ite ?_ (.ite ?_ (.ite ?_ (.ite ?_ (.ite ?_ (.ite ?_ (.ite ?_ (.ite ?_
    (.ite ?_ ?_)))))))))
  · exact .pure _
  · exact Framed.i8.map _
  · exact Framed.i16.map _
  · exact Framed.u8.bind fun _ => framed_loadConstant _
  · exact Framed.u16.bind fun _ => framed_loadConstant _
  · exact Framed.u8.bind fun _ => .ite (.pure _) (.pure _)
  · exact .pure _
  · exact .pure _
  · exact Framed.u16.bind fun _ => (Framed.ofExcept _).bind fun _ => .ite (.pure _) (.pure _)
  · exact .pure _
  · exact framed_skipOperands.map _

theorem framed_readInstruction : Framed (readInstruction pool) :=
  Framed.located (f := fun pc => Reader.u8 >>= readOperands pool pc)
    fun _ => Framed.u8.bind fun _ => framed_readOperands

/-- The opcodes that are told apart, in the order in which they are asked for. -/
theorem mem_interpreted_iff (op : UInt8) : op ∈ CodeUnit.interpreted ↔
    (Opcode.intConstant0 ≤ op ∧ op ≤ Opcode.intConstant5) ∨ op = Opcode.bytePush ∨
      op = Opcode.shortPush ∨ op = Opcode.loadConstant ∨ op = Opcode.loadConstantWide ∨
      op = Opcode.newArray ∨ op = Opcode.dup ∨ op = Opcode.intArrayStore ∨ op = Opcode.putStatic ∨
      op = Opcode.leave := by
  revert op
  exact Opcode.forall_of_byte (by decide +kernel)

/-- Any other instruction is stepped over. -/
theorem readOperands_other (hop : op ∉ CodeUnit.interpreted) :
    readOperands pool pc op = (skipOperands op pc >>= fun _ => pure (.other op)) := by
  simp only [mem_interpreted_iff, not_or] at hop
  simp only [readOperands, hop, if_false]

theorem complete_of_fixed (size : Nat) (hform : Opcode.form? op = some (.fixed size))
    (hsize : bytes.length = size) : CodeUnit.Complete pc ⟨op, bytes⟩ :=
  ⟨_, hform, .fixed hsize⟩

/-- A constant that is no integer is one that is not interpreted. -/
theorem accepts_loadConstant {i : UInt16} : Accepts (loadConstant pool op i) offset bytes insn ↔
    bytes = [] ∧ ((∃ v, pool.Holds i (.integer v) ∧ insn = .pushConstant v) ∨
      ∃ c, pool.Holds i c ∧ (∀ v, c ≠ .integer v) ∧ insn = .other op) := by
  rw [loadConstant, accepts_bind (Framed.ofExcept _)]
  simp only [accepts_ofExcept, ConstantPool.integer?_iff_holds]
  constructor
  · rintro ⟨_, bytes, _, rfl, ⟨rfl, c, hc, rfl⟩, h⟩
    cases c with
    | integer v =>
      obtain ⟨rfl, rfl⟩ := (accepts_pure (a := Instruction.pushConstant v)).1 h
      exact ⟨rfl, .inl ⟨v, hc, rfl⟩⟩
    | _ =>
      obtain ⟨rfl, rfl⟩ := (accepts_pure (a := Instruction.other op)).1 h
      exact ⟨rfl, .inr ⟨_, hc, nofun, rfl⟩⟩
  · rintro ⟨rfl, ⟨v, hc, rfl⟩ | ⟨c, hc, hother, rfl⟩⟩
    · exact ⟨[], [], _, rfl, ⟨rfl, _, hc, rfl⟩, accepts_pure.2 ⟨rfl, rfl⟩⟩
    · refine ⟨[], [], none, rfl, ⟨rfl, c, hc, ?_⟩, accepts_pure.2 ⟨rfl, rfl⟩⟩
      cases c with
      | integer v => exact absurd rfl (hother v)
      | _ => rfl

theorem exists_small (op : UInt8) (hop : Opcode.intConstant0 ≤ op ∧ op ≤ Opcode.intConstant5) :
    ∃ n ≤ 5, op = 0x03 + UInt8.ofNat n := by
  revert op
  exact Opcode.forall_of_byte (by decide +kernel)

theorem means_small (hop : Opcode.intConstant0 ≤ op ∧ op ≤ Opcode.intConstant5)
    (h : Accepts (readOperands pool pc op) offset bytes insn) :
    CodeUnit.Means pool ⟨op, bytes⟩ insn := by
  have hread : readOperands pool pc op
      = pure (.pushSmall (Int32.ofNat (op - Opcode.intConstant0).toNat)) := if_pos hop
  rw [hread, accepts_pure] at h
  obtain ⟨rfl, rfl⟩ := h
  obtain ⟨n, hn, rfl⟩ := exists_small op hop
  have hmeans := @CodeUnit.Means.small pool n hn
  interval_cases n <;> exact hmeans

/-- A constant means what its slot holds, in whatever width the operand names the slot. -/
theorem means_constant {α : Type} {r : Reader α} {write : α → List UInt8} (slot : α → UInt16)
    (hr : Framed r) (hwrite : ∀ {bytes i}, Accepts r offset bytes i → bytes = write i)
    (hinteger : ∀ {i v}, pool.Holds (slot i) (.integer v) →
      CodeUnit.Means pool ⟨op, write i⟩ (.pushConstant v))
    (hother : ∀ {i c}, pool.Holds (slot i) c → (∀ v, c ≠ .integer v) →
      CodeUnit.Means pool ⟨op, write i⟩ (.other op))
    (h : Accepts (r >>= fun i => loadConstant pool op (slot i)) offset bytes insn) :
    CodeUnit.Means pool ⟨op, bytes⟩ insn := by
  obtain ⟨_, _, i, rfl, hi, hload⟩ := (accepts_bind hr).1 h
  obtain rfl := hwrite hi
  obtain ⟨rfl, ⟨v, hc, rfl⟩ | ⟨c, hc, hnone, rfl⟩⟩ := accepts_loadConstant.1 hload
  · rw [List.append_nil]
    exact hinteger hc
  · rw [List.append_nil]
    exact hother hc hnone

theorem means_newArray (h : Accepts (readOperands pool pc Opcode.newArray) offset bytes insn) :
    CodeUnit.Means pool ⟨Opcode.newArray, bytes⟩ insn := by
  obtain ⟨_, _, element, rfl, helement, hkind⟩ := (accepts_bind Framed.u8).1 h
  obtain rfl := accepts_u8.1 helement
  by_cases hint : element = Opcode.intElement
  · rw [if_pos hint, accepts_pure] at hkind
    obtain ⟨rfl, rfl⟩ := hkind
    obtain rfl := hint
    exact .newIntArray
  · rw [if_neg hint, accepts_pure] at hkind
    obtain ⟨rfl, rfl⟩ := hkind
    exact .newOtherArray hint

theorem means_putStatic (h : Accepts (readOperands pool pc Opcode.putStatic) offset bytes insn) :
    CodeUnit.Means pool ⟨Opcode.putStatic, bytes⟩ insn := by
  obtain ⟨_, _, i, rfl, hi, hslot⟩ := (accepts_bind Framed.u16).1 h
  obtain rfl := accepts_u16.1 hi
  obtain ⟨_, _, field, rfl, hfield, hkind⟩ := (accepts_bind (Framed.ofExcept _)).1 hslot
  obtain ⟨rfl, hfound⟩ := accepts_ofExcept.1 hfield
  rw [ConstantPool.field_iff_holds] at hfound
  by_cases harray : field.descriptor = intArrayDescriptor
  · rw [if_pos harray, accepts_pure] at hkind
    obtain ⟨rfl, rfl⟩ := hkind
    exact .storeField hfound harray
  · rw [if_neg harray, accepts_pure] at hkind
    obtain ⟨rfl, rfl⟩ := hkind
    exact .storeOtherField hfound harray

/-- Of an opcode that is told apart, what is read is what it means. -/
theorem means_of_interpreted (hop : op ∈ CodeUnit.interpreted)
    (h : Accepts (readOperands pool pc op) offset bytes insn) :
    CodeUnit.Means pool ⟨op, bytes⟩ insn := by
  rcases (mem_interpreted_iff op).1 hop with
    hsmall | rfl | rfl | rfl | rfl | rfl | rfl | rfl | rfl | rfl
  · exact means_small hsmall h
  · obtain ⟨v, hv, rfl⟩ := (accepts_map Framed.i8).1 h
    obtain rfl := accepts_i8.1 hv
    exact .byte
  · obtain ⟨v, hv, rfl⟩ := (accepts_map Framed.i16).1 h
    obtain rfl := accepts_i16.1 hv
    exact .short
  · exact means_constant UInt8.toUInt16 Framed.u8 accepts_u8.1 .constant .otherConstant h
  · exact means_constant id Framed.u16 accepts_u16.1 .wideConstant .otherWideConstant h
  · exact means_newArray h
  · obtain ⟨rfl, rfl⟩ := (accepts_pure (a := Instruction.dup)).1 h
    exact .dup
  · obtain ⟨rfl, rfl⟩ := (accepts_pure (a := Instruction.arrayStore)).1 h
    exact .arrayStore
  · exact means_putStatic h
  · obtain ⟨rfl, rfl⟩ := (accepts_pure (a := Instruction.finish)).1 h
    exact .finish

/-- An instruction that is told apart is complete wherever it stands. -/
theorem complete_of_means {u : CodeUnit} (hop : u.opcode ∈ CodeUnit.interpreted)
    (h : u.Means pool insn) (pc : Nat) : u.Complete pc := by
  cases h with
  | @small n hn => interval_cases n <;> exact complete_of_fixed 0 rfl rfl
  | byte | constant | otherConstant | newIntArray | newOtherArray =>
    exact complete_of_fixed 1 rfl rfl
  | short | wideConstant | otherWideConstant | storeField | storeOtherField =>
    exact complete_of_fixed 2 rfl rfl
  | dup | arrayStore | finish => exact complete_of_fixed 0 rfl rfl
  | other hother => exact absurd hop hother

/-- What is read is a complete instruction. -/
theorem means_of_accepts (h : Accepts (readOperands pool pc op) offset bytes insn) :
    CodeUnit.Complete pc ⟨op, bytes⟩ ∧ CodeUnit.Means pool ⟨op, bytes⟩ insn := by
  by_cases hop : op ∈ CodeUnit.interpreted
  · have hmeans := means_of_interpreted hop h
    exact ⟨complete_of_means hop hmeans pc, hmeans⟩
  · rw [readOperands_other hop] at h
    obtain ⟨_, hskip, rfl⟩ := (accepts_map framed_skipOperands).1 h
    exact ⟨accepts_skipOperands.1 hskip, .other hop⟩

/-- An opcode is read, then what stands behind it. -/
theorem accepts_readInstruction : Accepts (readInstruction pool) pc bytes insn ↔
    ∃ op operands, bytes = op :: operands ∧
      Accepts (readOperands pool pc op) (pc + 1) operands insn := by
  refine (accepts_located (f := fun pc => Reader.u8 >>= readOperands pool pc)).trans ?_
  simp only [accepts_bind Framed.u8, accepts_u8]
  constructor
  · rintro ⟨_, operands, op, rfl, rfl, h⟩
    exact ⟨op, operands, rfl, h⟩
  · rintro ⟨op, operands, rfl, h⟩
    exact ⟨[op], operands, op, rfl, rfl, h⟩

/-- An instruction with an operand is accepted by what is made of the operand. -/
theorem accepts_operand {α : Type} {r : Reader α} {f : α → Reader Instruction} {a : α}
    (hop : ∀ pc, readOperands pool pc op = r >>= f) (hr : Framed r) (ha : Accepts r (pc + 1) bytes a)
    (hf : Accepts (f a) (pc + 1 + bytes.length) [] insn) :
    Accepts (readInstruction pool) pc (op :: bytes) insn := by
  refine accepts_readInstruction.2 ⟨op, bytes, rfl, ?_⟩
  rw [hop, accepts_bind hr]
  exact ⟨bytes, [], a, (List.append_nil bytes).symm, ha, hf⟩

/-- A complete instruction is read as what it means. -/
theorem accepts_of_means {u : CodeUnit} (hunit : u.Complete pc) (h : u.Means pool insn) :
    Accepts (readInstruction pool) pc u.bytes insn := by
  cases h with
  | @small n hn =>
    have hsmall := @readInstruction_small pool (Int32.ofNat n)
    interval_cases n <;> exact .of_reads (hsmall (by decide))
  | byte => exact .of_reads (readInstruction_byte _)
  | short => exact .of_reads (readInstruction_short _)
  | constant hc =>
    exact accepts_operand (fun _ => rfl) Framed.u8 (accepts_u8.2 rfl)
      (accepts_loadConstant.2 ⟨rfl, .inl ⟨_, hc, rfl⟩⟩)
  | otherConstant hc hother =>
    exact accepts_operand (fun _ => rfl) Framed.u8 (accepts_u8.2 rfl)
      (accepts_loadConstant.2 ⟨rfl, .inr ⟨_, hc, hother, rfl⟩⟩)
  | wideConstant hc =>
    exact accepts_operand (fun _ => rfl) Framed.u16 (accepts_u16.2 rfl)
      (accepts_loadConstant.2 ⟨rfl, .inl ⟨_, hc, rfl⟩⟩)
  | otherWideConstant hc hother =>
    exact accepts_operand (fun _ => rfl) Framed.u16 (accepts_u16.2 rfl)
      (accepts_loadConstant.2 ⟨rfl, .inr ⟨_, hc, hother, rfl⟩⟩)
  | newIntArray => exact .of_reads readInstruction_newArray
  | @newOtherArray element hother =>
    have hother : element ≠ Opcode.intElement := hother
    refine accepts_operand (fun _ => rfl) Framed.u8 (accepts_u8.2 rfl) ?_
    rw [if_neg hother]
    exact accepts_pure.2 ⟨rfl, rfl⟩
  | dup => exact .of_reads readInstruction_dup
  | arrayStore => exact .of_reads readInstruction_arrayStore
  | @storeField i field hfield harray =>
    have harray : field.descriptor = intArrayDescriptor := harray
    have hreads := readInstruction_storeField (ConstantPool.field_iff_holds.2 hfield)
    rw [Instruction.reread, if_pos harray] at hreads
    exact .of_reads hreads
  | @storeOtherField i field hfield hother =>
    have hother : field.descriptor ≠ intArrayDescriptor := hother
    have hreads := readInstruction_storeField (ConstantPool.field_iff_holds.2 hfield)
    rw [Instruction.reread, if_neg hother] at hreads
    exact .of_reads hreads
  | finish => exact .of_reads readInstruction_finish
  | other hother =>
    refine accepts_readInstruction.2 ⟨_, _, rfl, ?_⟩
    rw [readOperands_other hother]
    exact (accepts_map framed_skipOperands).2 ⟨(), accepts_skipOperands.2 hunit, rfl⟩

/-- What the reader of an instruction accepts. -/
theorem accepts_readInstruction_iff : Accepts (readInstruction pool) pc bytes insn ↔
    ∃ u : CodeUnit, u.bytes = bytes ∧ u.Complete pc ∧ u.Means pool insn := by
  constructor
  · intro h
    obtain ⟨op, operands, rfl, hoperands⟩ := accepts_readInstruction.1 h
    exact ⟨⟨op, operands⟩, rfl, means_of_accepts hoperands⟩
  · rintro ⟨u, rfl, hunit, h⟩
    exact accepts_of_means hunit h

/-! ### What has to be looked up -/

theorem length_of_complete {size : Nat} (h : CodeUnit.Complete pc ⟨op, bytes⟩)
    (hform : Opcode.form? op = some (.fixed size)) : bytes.length = size := by
  obtain ⟨form, hform', hoperands⟩ := h
  cases hform.symm.trans hform'
  cases hoperands with
  | fixed hsize => exact hsize

/-- An instruction that means something has what it names. -/
theorem resolves_of_means {u : CodeUnit} (h : u.Means pool insn) : u.Resolves pool := by
  cases h with
  | @small n hn => interval_cases n <;> exact ⟨by simp, by simp⟩
  | @constant i v hc => exact ⟨fun _ => ⟨i.toUInt16, _, by simp [number], hc⟩, by simp⟩
  | @otherConstant i c hc hother => exact ⟨fun _ => ⟨i.toUInt16, _, by simp [number], hc⟩, by simp⟩
  | wideConstant hc => exact ⟨fun _ => ⟨_, _, number_u16 _, hc⟩, by simp⟩
  | otherWideConstant hc hother => exact ⟨fun _ => ⟨_, _, number_u16 _, hc⟩, by simp⟩
  | storeField hfield harray => exact ⟨by simp, fun _ => ⟨_, _, number_u16 _, hfield⟩⟩
  | storeOtherField hfield hother => exact ⟨by simp, fun _ => ⟨_, _, number_u16 _, hfield⟩⟩
  | other hother =>
    refine ⟨fun hop => absurd ?_ hother, fun hop => absurd ?_ hother⟩
    · rcases hop with hop | hop <;> simp [hop, CodeUnit.interpreted]
    · simp [hop, CodeUnit.interpreted]
  | _ => exact ⟨by simp, by simp⟩

/-- A constant means something, whatever it is. -/
theorem exists_means_constant {i : UInt16} {c : Constant} (hc : pool.Holds i c)
    (hinteger : ∀ {v}, pool.Holds i (.integer v) → CodeUnit.Means pool ⟨op, bytes⟩ (.pushConstant v))
    (hother : ∀ {c}, pool.Holds i c → (∀ v, c ≠ .integer v) →
      CodeUnit.Means pool ⟨op, bytes⟩ (.other op)) :
    ∃ insn, CodeUnit.Means pool ⟨op, bytes⟩ insn := by
  by_cases hint : ∃ v, c = .integer v
  · obtain ⟨v, rfl⟩ := hint
    exact ⟨_, hinteger hc⟩
  · exact ⟨_, hother hc (not_exists.1 hint)⟩

/-- A complete instruction that has what it names means something. -/
theorem exists_means {u : CodeUnit} (hunit : u.Complete pc) (h : u.Resolves pool) :
    ∃ insn, u.Means pool insn := by
  by_cases hop : u.opcode ∈ CodeUnit.interpreted
  · obtain ⟨op, operands⟩ := u
    rcases (mem_interpreted_iff op).1 hop with
      hsmall | rfl | rfl | rfl | rfl | rfl | rfl | rfl | rfl | rfl
    · obtain ⟨n, hn, rfl⟩ := exists_small op hsmall
      have hform : Opcode.form? (0x03 + UInt8.ofNat n) = some (.fixed 0) := by
        interval_cases n <;> rfl
      obtain rfl := List.length_eq_zero_iff.1 (length_of_complete hunit hform)
      exact ⟨_, .small hn⟩
    · obtain ⟨b, rfl⟩ := List.length_eq_one_iff.1 (length_of_complete hunit rfl)
      have hmeans := @CodeUnit.Means.byte pool b.toInt8
      rw [UInt8.toUInt8_toInt8] at hmeans
      exact ⟨_, hmeans⟩
    · obtain ⟨w, rfl⟩ := exists_u16 (length_of_complete hunit rfl)
      have hmeans := @CodeUnit.Means.short pool w.toInt16
      rw [UInt16.toUInt16_toInt16] at hmeans
      exact ⟨_, hmeans⟩
    · obtain ⟨b, rfl⟩ := List.length_eq_one_iff.1 (length_of_complete hunit rfl)
      obtain ⟨i, c, hi, hc⟩ := h.constant (.inl rfl)
      obtain rfl : i = b.toUInt16 := UInt16.toNat_inj.1 (by simpa [number] using hi.symm)
      exact exists_means_constant hc .constant .otherConstant
    · obtain ⟨w, rfl⟩ := exists_u16 (length_of_complete hunit rfl)
      obtain ⟨i, c, hi, hc⟩ := h.constant (.inr rfl)
      obtain rfl : w = i := UInt16.toNat_inj.1 ((number_u16 w).symm.trans hi)
      exact exists_means_constant hc .wideConstant .otherWideConstant
    · obtain ⟨element, rfl⟩ := List.length_eq_one_iff.1 (length_of_complete hunit rfl)
      by_cases hint : element = 10
      · obtain rfl := hint
        exact ⟨_, .newIntArray⟩
      · exact ⟨_, .newOtherArray hint⟩
    · obtain rfl := List.length_eq_zero_iff.1 (length_of_complete hunit rfl)
      exact ⟨_, .dup⟩
    · obtain rfl := List.length_eq_zero_iff.1 (length_of_complete hunit rfl)
      exact ⟨_, .arrayStore⟩
    · obtain ⟨w, rfl⟩ := exists_u16 (length_of_complete hunit rfl)
      obtain ⟨i, field, hi, hfield⟩ := h.field rfl
      obtain rfl : w = i := UInt16.toNat_inj.1 ((number_u16 w).symm.trans hi)
      by_cases harray : field.descriptor = "[I"
      · exact ⟨_, .storeField hfield harray⟩
      · exact ⟨_, .storeOtherField hfield harray⟩
    · obtain rfl := List.length_eq_zero_iff.1 (length_of_complete hunit rfl)
      exact ⟨_, .finish⟩
  · exact ⟨_, .other hop⟩

/-! ### Whole bodies -/

/-- No instruction is a part of another one in its place. -/
theorem complete_unique {u v : CodeUnit} {code code' : List UInt8} (hu : u.Complete pc)
    (hv : v.Complete pc) (h : u.bytes ++ code = v.bytes ++ code') : u = v ∧ code = code' := by
  obtain ⟨op, operands⟩ := u
  obtain ⟨op', operands'⟩ := v
  obtain ⟨rfl, htail⟩ := List.cons.inj h
  -- the operands of the one opcode are stepped over in both readings of the code
  have hfirst : Accepts (skipOperands op pc) 0 operands () := accepts_skipOperands.2 hu
  have hsecond : Accepts (skipOperands op pc) 0 operands' () := accepts_skipOperands.2 hv
  have hsame := hfirst code
  change operands ++ code = operands' ++ code' at htail
  rw [htail, hsecond code', EStateM.Result.ok.injEq, Cursor.mk.injEq] at hsame
  obtain ⟨-, rfl, -⟩ := hsame
  exact ⟨by rw [List.append_cancel_right htail], rfl⟩

/-- A body splits in one way. -/
theorem splits_unique : ∀ {units units' : List CodeUnit} {code : List UInt8} {pc : Nat},
    Splits pc code units → Splits pc code units' → units = units'
  | [], _, _, _, .nil, h => (splits_nil_iff.1 h).symm
  | _, [], _, _, h, .nil => splits_nil_iff.1 h
  | u :: units, u' :: units', _, pc, h, h' => by
    obtain ⟨rest, rfl, hunit, hrest⟩ := splits_cons_iff.1 h
    obtain ⟨rest', hwhole, hunit', hrest'⟩ := splits_cons_iff.1 h'
    obtain ⟨rfl, rfl⟩ := complete_unique hunit hunit' hwhole
    rw [splits_unique hrest hrest']

/-- Rounds for all bytes read all instructions, each in its place. -/
theorem readAllOnto_eq_ok : ∀ {rounds : Nat} {code : List UInt8} {pc : Nat}
    {done insns : List Instruction}, code.length ≤ rounds →
      ((∃ c, readAllOnto pool done rounds ⟨code, pc⟩ = .ok insns c) ↔
        ∃ units tail, Splits pc code units ∧ List.Forall₂ (CodeUnit.Means pool) units tail ∧
          insns = done.reverse ++ tail)
  | rounds, [], pc, done, insns, _ => by
    rw [readAllOnto_nil]
    constructor
    · rintro ⟨_, ⟨⟩⟩
      exact ⟨[], [], .nil, .nil, (List.append_nil _).symm⟩
    · rintro ⟨_, _, ⟨⟩, ⟨⟩, rfl⟩
      exact ⟨_, by rw [List.append_nil]⟩
  | rounds + 1, b :: code, pc, done, insns, hrounds => by
    rw [readAllOnto_step rfl]
    simp only [bind_eq_ok]
    -- an instruction takes its opcode at least, so a round less is enough for what follows it
    have hfewer : ∀ {u : CodeUnit} {rest : List UInt8}, b :: code = u.bytes ++ rest →
        rest.length ≤ rounds := by
      intro u rest hwhole
      have hlengths := congrArg List.length hwhole
      simp only [CodeUnit.bytes, List.length_append, List.length_cons] at hlengths hrounds
      omega
    constructor
    · rintro ⟨c, insn, ⟨rest, offset⟩, hinsn, hrest⟩
      obtain ⟨bytes, hwhole, hoffset, haccepts⟩ := framed_readInstruction _ _ _ hinsn
      obtain ⟨u, rfl, hunit, hmeans⟩ := accepts_readInstruction_iff.1 haccepts
      obtain rfl : offset = pc + u.bytes.length := hoffset
      obtain ⟨units, tail, hsplits, htail, rfl⟩ := (readAllOnto_eq_ok (hfewer hwhole)).1 ⟨c, hrest⟩
      exact ⟨u :: units, insn :: tail, splits_cons_iff.2 ⟨rest, hwhole, hunit, hsplits⟩,
        .cons hmeans htail, by simp⟩
    · rintro ⟨_ | ⟨u, units⟩, tail, hsplits, htail, rfl⟩
      · cases hsplits
      · obtain ⟨rest, hwhole, hunit, hrest⟩ := splits_cons_iff.1 hsplits
        cases htail with
        | @cons _ insn _ tail hmeans htail =>
          have haccepts := accepts_readInstruction_iff.2 ⟨u, rfl, hunit, hmeans⟩
          have hlater : ∃ c, readAllOnto pool (insn :: done) rounds ⟨rest, pc + u.bytes.length⟩
              = .ok (done.reverse ++ insn :: tail) c :=
            (readAllOnto_eq_ok (hfewer hwhole)).2 ⟨units, tail, hrest, htail, by simp⟩
          obtain ⟨c, hc⟩ := hlater
          exact ⟨c, insn, _, hwhole ▸ haccepts rest, hc⟩

theorem decode_eq_ok {code : List UInt8} {insns : List Instruction} :
    decode pool code = .ok insns ↔
      ∃ units, Splits 0 code units ∧ List.Forall₂ (CodeUnit.Means pool) units insns := by
  have hread : decode pool code = .ok insns ↔
      ∃ c, readAllOnto pool [] code.length ⟨code, 0⟩ = .ok insns c := by
    rw [decode, Reader.read, Cursor.start]
    cases readAllOnto pool [] code.length ⟨code, 0⟩ <;> simp
  rw [hread, readAllOnto_eq_ok (Nat.le_refl code.length)]
  simp

/-- Complete instructions mean something exactly if each has what it names. -/
theorem exists_means_iff {code : List UInt8} {units : List CodeUnit} (h : Splits pc code units) :
    (∃ insns, List.Forall₂ (CodeUnit.Means pool) units insns) ↔ ∀ u ∈ units, u.Resolves pool := by
  induction h with
  | nil => simp
  | @cons pc u code units hunit _ ih =>
    rw [List.forall_mem_cons, ← ih]
    constructor
    · rintro ⟨_, h⟩
      cases h with
      | cons hmeans htail => exact ⟨resolves_of_means hmeans, _, htail⟩
    · rintro ⟨hresolves, insns, htail⟩
      obtain ⟨insn, hmeans⟩ := exists_means hunit hresolves
      exact ⟨insn :: insns, .cons hmeans htail⟩

/-- A body decodes exactly if it is made of complete instructions that have what they name, and then
    to what each of them means, in order. -/
theorem decode_splits (pool : ConstantPool) (code : List UInt8) :
    ((∃ insns, decode pool code = .ok insns) ↔
      ∃ units, Splits 0 code units ∧ ∀ u ∈ units, u.Resolves pool) ∧
    ∀ units, Splits 0 code units → ∀ insns,
      (decode pool code = .ok insns ↔ List.Forall₂ (CodeUnit.Means pool) units insns) := by
  constructor
  · constructor
    · rintro ⟨insns, h⟩
      obtain ⟨units, hsplits, hmeans⟩ := decode_eq_ok.1 h
      exact ⟨units, hsplits, (exists_means_iff hsplits).1 ⟨insns, hmeans⟩⟩
    · rintro ⟨units, hsplits, hresolves⟩
      obtain ⟨insns, hmeans⟩ := (exists_means_iff hsplits).2 hresolves
      exact ⟨insns, decode_eq_ok.2 ⟨units, hsplits, hmeans⟩⟩
  · intro units hsplits insns
    constructor
    · intro h
      obtain ⟨units', hsplits', hmeans⟩ := decode_eq_ok.1 h
      rwa [splits_unique hsplits hsplits']
    · exact fun hmeans => decode_eq_ok.2 ⟨units, hsplits, hmeans⟩

/-- A constant, a switch with two targets that is padded by one byte, and the end. -/
theorem decode_splits_sample :
    let pool : ConstantPool := ⟨#[none, some (.integer 300)]⟩
    let targets : List UInt8 := [0, 0, 0, 22, 0, 0, 0, 23]
    let units : List CodeUnit :=
      [⟨0x12, [1]⟩, ⟨0xaa, [0] ++ ([0, 0, 0, 9] ++ (i32 (-1) ++ (i32 0 ++ targets)))⟩, ⟨0xb1, []⟩]
    Splits 0 (units.flatMap CodeUnit.bytes) units ∧
      decode pool (units.flatMap CodeUnit.bytes) = .ok [.pushConstant 300, .other 0xaa, .finish] := by
  intro pool targets units
  have hswitch : OperandBytes 2 .tableSwitch
      ([0] ++ ([0, 0, 0, 9] ++ (i32 (-1) ++ (i32 0 ++ targets)))) :=
    .tableSwitch ⟨by decide, by decide⟩ rfl (by decide) (by decide)
  have hsplits : Splits 0 (units.flatMap CodeUnit.bytes) units :=
    .cons (complete_of_fixed 1 rfl rfl) <| .cons ⟨.tableSwitch, by decide +kernel, hswitch⟩ <|
      .cons (complete_of_fixed 0 rfl rfl) .nil
  have hmeans : List.Forall₂ (CodeUnit.Means pool) units [.pushConstant 300, .other 0xaa, .finish] :=
    .cons (.constant rfl) (.cons (.other (by decide)) (.cons .finish .nil))
  exact ⟨hsplits, ((decode_splits pool _).2 units hsplits _).2 hmeans⟩

end ResourceMerge.MethodBody

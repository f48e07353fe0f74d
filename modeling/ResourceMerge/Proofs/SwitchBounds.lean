import ResourceMerge.Proofs.BodyDecoding

/-! Table switches whose bounds are the wrong way round. Wherever the decoder of a body comes to a
    table switch, it counts the targets from the lowest to the highest key, and a negative count
    ends the decoding. Bounds that are reversed by one have the count zero: such a switch passes as
    one without targets, and the decoder goes on behind its bounds. -/

namespace ResourceMerge.Binary

/-- What follows a reader starts behind its bytes. -/
theorem Reads.run_bind {α β : Type} {r : Reader α} {bytes : List UInt8} {a : α}
    (h : Reads r bytes a) (f : α → Reader β) (rest : List UInt8) (offset : Nat) :
    (r >>= f) ⟨bytes ++ rest, offset⟩ = f a ⟨rest, offset + bytes.length⟩ := by
  simp only [Bind.bind, EStateM.bind, h rest offset]

end ResourceMerge.Binary

namespace ResourceMerge.MethodBody

open Binary

variable {pool : ConstantPool} {code : List UInt8} {c : Cursor} {insns : List Instruction}

/-- The decoder of a body comes to a place, having read the instructions up to there. -/
inductive Reaches (pool : ConstantPool) (code : List UInt8) : Cursor → List Instruction → Prop where
  | start : Reaches pool code (.start code) []
  | next {c c' : Cursor} {insns : List Instruction} {insn : Instruction}
      (h : Reaches pool code c insns) (hread : readInstruction pool c = .ok insn c') :
      Reaches pool code c' (insns ++ [insn])

/-- An instruction takes a byte at least. -/
theorem length_lt_of_read {c' : Cursor} {insn : Instruction}
    (h : readInstruction pool c = .ok insn c') : c'.rest.length < c.rest.length := by
  obtain ⟨bytes, hwhole, -, haccepts⟩ := framed_readInstruction _ _ _ h
  obtain ⟨op, operands, rfl, -⟩ := accepts_readInstruction.1 haccepts
  rw [hwhole, List.length_append, List.length_cons]
  omega

/-- From where the decoder has come to, as many rounds as there are bytes left still decode the
    body. -/
theorem decode_of_reaches (h : Reaches pool code c insns) :
    ∃ rounds, c.rest.length ≤ rounds ∧
      readAllOnto pool [] code.length (.start code) = readAllOnto pool insns.reverse rounds c := by
  induction h with
  | start => exact ⟨_, Nat.le_refl _, rfl⟩
  | @next c c' insns insn _ hread ih =>
    obtain ⟨rounds, hrounds, hrun⟩ := ih
    have hshorter := length_lt_of_read hread
    obtain ⟨rounds, rfl⟩ : ∃ n, rounds = n + 1 := ⟨rounds - 1, by omega⟩
    refine ⟨rounds, by omega, ?_⟩
    have hmore : c.rest.isEmpty = false := by
      rw [List.isEmpty_eq_false_iff, ← List.length_pos_iff]
      omega
    rw [hrun, readAllOnto_step hmore, List.reverse_append]
    simp only [Bind.bind, EStateM.bind, hread]
    rfl

/-- At the end of the bytes, the instructions read are those of the body. -/
theorem decode_of_reaches_end {pc : Nat} (h : Reaches pool code ⟨[], pc⟩ insns) :
    decode pool code = .ok insns := by
  obtain ⟨rounds, -, hrun⟩ := decode_of_reaches h
  rw [decode, Reader.read, hrun, readAllOnto_nil, List.reverse_reverse]

/-- An instruction that cannot be read ends the decoding. -/
theorem decode_of_fails {c' : Cursor} {e : Error} (h : Reaches pool code c insns)
    (hmore : c.rest ≠ []) (hfails : readInstruction pool c = .error e c') :
    decode pool code = .error e := by
  obtain ⟨rounds, hrounds, hrun⟩ := decode_of_reaches h
  have hpositive := List.length_pos_iff.2 hmore
  obtain ⟨rounds, rfl⟩ : ∃ n, rounds = n + 1 := ⟨rounds - 1, by omega⟩
  rw [decode, Reader.read, hrun, readAllOnto_step (List.isEmpty_eq_false_iff.2 hmore)]
  simp only [Bind.bind, EStateM.bind, hfails]

/-! ### The switch -/

/-- The operands of a table switch up to its bounds, and what follows them. -/
def boundsBefore (padding defaultTarget : List UInt8) (low high : Int32) (behind : List UInt8) :
    List UInt8 :=
  padding ++ (defaultTarget ++ (i32 low ++ (i32 high ++ behind)))

/-- The decoder comes to a table switch at `pc` that has both of its bounds. -/
def ReachesSwitch (pool : ConstantPool) (code : List UInt8) (pc : Nat) (low high : Int32)
    (behind : List UInt8) (insns : List Instruction) : Prop :=
  ∃ padding defaultTarget, Pads pc padding ∧ defaultTarget.length = 4 ∧
    Reaches pool code ⟨0xaa :: boundsBefore padding defaultTarget low high behind, pc⟩ insns

variable {pc : Nat} {padding defaultTarget behind : List UInt8} {low high : Int32}

theorem skipForm_reversed (hpadding : Pads pc padding) (hdefault : defaultTarget.length = 4)
    (hcount : high.toInt - low.toInt + 1 < 0) (behind : List UInt8) (offset : Nat) :
    ∃ c, skipForm pc .tableSwitch ⟨boundsBefore padding defaultTarget low high behind, offset⟩
      = .error (.malformed (.tableReversed pc)) c := by
  have hskip : Reads (Reader.skip (Opcode.switchPadding pc)) padding () := by
    rw [← pads_iff.1 hpadding]
    exact .skip padding
  have htarget : Reads (Reader.skip 4) defaultTarget () := by
    rw [← hdefault]
    exact .skip defaultTarget
  rw [skipForm, boundsBefore, hskip.run_bind, htarget.run_bind, (Reads.i32 low).run_bind,
    (Reads.i32 high).run_bind, if_pos hcount]
  exact ⟨_, rfl⟩

/-- A negative count of targets is refused. -/
theorem readInstruction_reversed (hpadding : Pads pc padding) (hdefault : defaultTarget.length = 4)
    (hcount : high.toInt - low.toInt + 1 < 0) (behind : List UInt8) :
    ∃ c, readInstruction pool ⟨0xaa :: boundsBefore padding defaultTarget low high behind, pc⟩
      = .error (.malformed (.tableReversed pc)) c := by
  have hother : (0xaa : UInt8) ∉ CodeUnit.interpreted := by decide
  obtain ⟨c, hskip⟩ := skipForm_reversed hpadding hdefault hcount behind (pc + 1)
  have hrefused : readOperands pool pc 0xaa
      ⟨boundsBefore padding defaultTarget low high behind, pc + 1⟩
      = .error (.malformed (.tableReversed pc)) c := by
    rw [readOperands_other hother]
    exact bind_eq_error.2 (.inl hskip)
  have hopen (c : Cursor) :
      readInstruction pool c = (Reader.u8 >>= readOperands pool c.offset) c := rfl
  refine ⟨c, ?_⟩
  rw [hopen]
  exact bind_eq_error.2 (.inr ⟨0xaa, _, Reads.u8 0xaa _ _, hrefused⟩)

/-- A count of zero is not. -/
theorem readInstruction_adjacent (hpadding : Pads pc padding) (hdefault : defaultTarget.length = 4)
    (hcount : high.toInt - low.toInt + 1 = 0) (behind : List UInt8) :
    ∃ offset, readInstruction pool ⟨0xaa :: boundsBefore padding defaultTarget low high behind, pc⟩
      = .ok (.other 0xaa) ⟨behind, offset⟩ := by
  let u : CodeUnit := ⟨0xaa, boundsBefore padding defaultTarget low high []⟩
  have hother : (0xaa : UInt8) ∉ CodeUnit.interpreted := by decide
  have hform : Opcode.form? 0xaa = some .tableSwitch := by decide +kernel
  have hcomplete : u.Complete pc :=
    ⟨.tableSwitch, hform, .tableSwitch hpadding hdefault (by omega) (by simp [hcount])⟩
  have haccepts : Accepts (readInstruction pool) pc u.bytes (.other 0xaa) :=
    accepts_readInstruction_iff.2 ⟨u, rfl, hcomplete, .other hother⟩
  have hread := haccepts behind
  simp only [u, CodeUnit.bytes, boundsBefore, List.append_nil, List.cons_append,
    List.append_assoc] at hread
  exact ⟨_, hread⟩

/-- Where the decoder comes to a table switch whose lowest key is above its highest, it refuses the
    body because of this switch, unless the two keys are neighbours; then it steps over a switch
    without targets and goes on behind it, to a list of instructions if nothing else follows. -/
theorem switch_reversed (h : ReachesSwitch pool code pc low high behind insns)
    (hreversed : high < low) :
    (low.toInt ≠ high.toInt + 1 → decode pool code = .error (.malformed (.tableReversed pc))) ∧
    (low.toInt = high.toInt + 1 →
      (∃ offset, Reaches pool code ⟨behind, offset⟩ (insns ++ [.other 0xaa])) ∧
      (behind = [] → decode pool code = .ok (insns ++ [.other 0xaa]))) := by
  obtain ⟨padding, defaultTarget, hpadding, hdefault, hreaches⟩ := h
  rw [Int32.lt_iff_toInt_lt] at hreversed
  constructor
  · intro hapart
    have hcount : high.toInt - low.toInt + 1 < 0 := by omega
    obtain ⟨c, hfails⟩ := readInstruction_reversed hpadding hdefault hcount behind
    exact decode_of_fails hreaches (List.cons_ne_nil _ _) hfails
  · intro hadjacent
    have hcount : high.toInt - low.toInt + 1 = 0 := by omega
    obtain ⟨offset, hread⟩ := readInstruction_adjacent hpadding hdefault hcount behind
    refine ⟨⟨offset, hreaches.next hread⟩, ?_⟩
    rintro rfl
    exact decode_of_reaches_end (hreaches.next hread)

/-- Behind a jump, with padding of one byte and bounds whose difference exceeds 32 bits. -/
theorem switch_reversed_sample :
    let code : List UInt8 := [0x00, 0x00, 0xaa, 0xff] ++ ([0, 0, 0, 9]
      ++ (i32 2147483647 ++ (i32 (-2147483648) ++ [0xb1])))
    ReachesSwitch ⟨#[]⟩ code 2 2147483647 (-2147483648) [0xb1] [.other 0x00, .other 0x00] ∧
      decode ⟨#[]⟩ code = .error (.malformed (.tableReversed 2)) := by
  intro code
  have hreaches : ReachesSwitch ⟨#[]⟩ code 2 2147483647 (-2147483648) [0xb1]
      [.other 0x00, .other 0x00] :=
    ⟨[0xff], [0, 0, 0, 9], ⟨by decide, by decide⟩, rfl,
      .next (.next .start (by rfl)) (by rfl)⟩
  exact ⟨hreaches, (switch_reversed hreaches (by decide)).1 (by decide)⟩

/-- A switch with the lowest key one and the highest key zero is a whole body that decodes. -/
theorem switch_neighbours_accepted :
    let code : List UInt8 := [0xaa, 0, 0, 0, 0, 0, 0, 0] ++ (i32 1 ++ i32 0)
    ReachesSwitch ⟨#[]⟩ code 0 1 0 [] [] ∧ (0 : Int32) < 1 ∧
      decode ⟨#[]⟩ code = .ok [.other 0xaa] := by
  intro code
  have hpads : Pads 0 [0, 0, 0] := ⟨by decide, by decide⟩
  have hdefault : ([0, 0, 0, 0] : List UInt8).length = 4 := rfl
  have hcount : (0 : Int32).toInt - (1 : Int32).toInt + 1 = 0 := by decide
  have hreaches : ReachesSwitch ⟨#[]⟩ code 0 1 0 [] [] :=
    ⟨[0, 0, 0], [0, 0, 0, 0], hpads, hdefault, .start⟩
  obtain ⟨offset, hread⟩ := readInstruction_adjacent hpads hdefault hcount []
  exact ⟨hreaches, by decide, decode_of_reaches_end (.next .start hread)⟩

end ResourceMerge.MethodBody

import ResourceMerge.Instruction.StackDepth

/-! What the depth computed for a stream says about its operands. An instruction pops some operands
    and pushes others, and the computation looks at the difference only. A store loses operands, so
    that it finds them is checked; a new array or a copy loses none, and is let through on an empty
    stack, although it pops an operand there. Apart from these two the computation is exact: it
    succeeds if every instruction has a known effect and finds what it loses, and answers the
    greatest depth that is reached, as long as sixteen bits hold it. -/

namespace ResourceMerge.Instruction

/-! ### Operands -/

/-- How many operands the instruction pops. -/
def pops : Instruction → Nat
  | .newIntArray | .dup | .storeField _ => 1
  | .arrayStore => 3
  | _ => 0

/-- How many operands it pushes. -/
def pushes : Instruction → Nat
  | .pushSmall _ | .pushByte _ | .pushShort _ | .pushConstant _ | .newIntArray => 1
  | .dup => 2
  | _ => 0

/-- How many of the operands it pops it does not make up for. -/
def loses (insn : Instruction) : Nat := insn.pops - insn.pushes

/-- By how much it moves the depth of the stack. -/
def effect (insn : Instruction) : Int := insn.pushes - insn.pops

/-- By how much a stream moves the depth of the stack. -/
def depth : List Instruction → Int
  | [] => 0
  | insn :: rest => insn.effect + depth rest

theorem depth_nil : depth [] = 0 := rfl

theorem depth_cons (insn : Instruction) (rest : List Instruction) :
    depth (insn :: rest) = insn.effect + depth rest := rfl

theorem stackDelta?_eq_none {insn : Instruction} :
    insn.stackDelta? = none ↔ ∃ opcode, insn = .other opcode := by
  cases insn <;> simp [stackDelta?]

theorem stackDelta?_of_known {insn : Instruction} (h : ∀ opcode, insn ≠ .other opcode) :
    insn.stackDelta? = some insn.effect := by
  cases insn with
  | other opcode => exact absurd rfl (h opcode)
  | _ => rfl

theorem stackDelta?_eq_some {insn : Instruction} {delta : Int} :
    insn.stackDelta? = some delta ↔ (∀ opcode, insn ≠ .other opcode) ∧ delta = insn.effect := by
  constructor
  · intro h
    have hknown : ∀ opcode, insn ≠ .other opcode := by
      rintro opcode rfl
      cases h
    rw [stackDelta?_of_known hknown] at h
    exact ⟨hknown, (Option.some.inj h).symm⟩
  · rintro ⟨hknown, rfl⟩
    exact stackDelta?_of_known hknown

/-- What an instruction loses is there exactly if it does not lower the depth below zero. -/
theorem loses_le_iff {insn : Instruction} {start : Int} (hstart : 0 ≤ start) :
    (insn.loses : Int) ≤ start ↔ ¬ (insn.effect < 0 ∧ start + insn.effect < 0) := by
  unfold loses effect
  omega

/-- What is there stays a number of operands. -/
theorem effect_nonneg {insn : Instruction} {start : Int} (h : (insn.loses : Int) ≤ start) :
    0 ≤ start + insn.effect := by
  unfold loses at h
  unfold effect
  omega

/-- The instructions that pop an operand and push it back, or another one for it. -/
def Replaces (insn : Instruction) : Prop := insn = .newIntArray ∨ insn = .dup

/-- All that is popped is there if what is lost is there, and the operand that is replaced. -/
theorem pops_le_iff {insn : Instruction} {start : Int} (hstart : 0 ≤ start) :
    (insn.pops : Int) ≤ start ↔ (insn.loses : Int) ≤ start ∧ (insn.Replaces → 0 < start) := by
  by_cases h : insn.Replaces
  · obtain ⟨hpops, hloses⟩ : insn.pops = 1 ∧ insn.loses = 0 := by
      rcases h with rfl | rfl <;> exact ⟨rfl, rfl⟩
    rw [hpops, hloses, imp_iff_right h]
    omega
  · have hsame : insn.pops = insn.loses := by
      cases insn with
      | newIntArray => exact absurd (.inl rfl) h
      | dup => exact absurd (.inr rfl) h
      | _ => rfl
    rw [hsame, and_iff_left fun hreplaces => absurd hreplaces h]

/-! ### The greatest depth -/

variable {needs : Instruction → Nat} {insn : Instruction} {rest insns : List Instruction}
  {start top top' : Int}

/-- Of the depths that a stream goes through, behind `start` operands, the greatest is `top`. -/
structure Peak (start : Int) (insns : List Instruction) (top : Int) : Prop where
  reached : ∃ before, before <+: insns ∧ start + depth before = top
  greatest : ∀ before, before <+: insns → start + depth before ≤ top

namespace Peak

theorem unique (h : Peak start insns top) (h' : Peak start insns top') : top = top' := by
  obtain ⟨before, hbefore, rfl⟩ := h.reached
  obtain ⟨before', hbefore', rfl⟩ := h'.reached
  exact Int.le_antisymm (h'.greatest before hbefore) (h.greatest before' hbefore')

/-- The depth at the start is one of those that are gone through. -/
theorem start_le (h : Peak start insns top) : start ≤ top := by
  have hstart := h.greatest [] List.nil_prefix
  rwa [depth_nil, Int.add_zero] at hstart

theorem nil (start : Int) : Peak start [] start where
  reached := ⟨[], List.prefix_rfl, Int.add_zero start⟩
  greatest before hbefore := by
    obtain rfl := List.prefix_nil.1 hbefore
    exact Int.le_of_eq (Int.add_zero start)

/-- Behind its first instruction a stream goes on from the depth which that one leaves. -/
theorem cons (h : Peak (start + insn.effect) rest top) :
    Peak start (insn :: rest) (max start top) where
  reached := by
    rcases Int.le_total start top with hle | hle
    · obtain ⟨before, hbefore, htop⟩ := h.reached
      refine ⟨insn :: before, (List.prefix_cons_inj insn).2 hbefore, ?_⟩
      rw [depth_cons, ← Int.add_assoc, htop, Int.max_eq_right hle]
    · exact ⟨[], List.nil_prefix, by rw [depth_nil, Int.add_zero, Int.max_eq_left hle]⟩
  greatest := by
    rintro (_ | ⟨first, before⟩) hprefix
    · rw [depth_nil, Int.add_zero]
      exact Int.le_max_left start top
    · obtain ⟨hfirst, hbefore⟩ := List.cons_prefix_cons.1 hprefix
      rw [depth_cons, ← Int.add_assoc, hfirst]
      exact Int.le_trans (h.greatest before hbefore) (Int.le_max_right start top)

theorem exists_peak : ∀ (start : Int) (insns : List Instruction), ∃ top, Peak start insns top
  | start, [] => ⟨start, nil start⟩
  | start, insn :: rest => by
    obtain ⟨top, h⟩ := exists_peak (start + insn.effect) rest
    exact ⟨max start top, h.cons⟩

end Peak

/-! ### What the instructions find -/

/-- Behind `start` operands every instruction has a known effect and finds as many operands as it
    `needs`. -/
structure Supplied (needs : Instruction → Nat) (start : Int) (insns : List Instruction) : Prop where
  known : ∀ opcode, .other opcode ∉ insns
  finds : ∀ before insn behind, insns = before ++ insn :: behind →
    (needs insn : Int) ≤ start + depth before

theorem supplied_cons : Supplied needs start (insn :: rest) ↔
    (∀ opcode, insn ≠ .other opcode) ∧ (needs insn : Int) ≤ start ∧
      Supplied needs (start + insn.effect) rest := by
  constructor
  · intro h
    have hfirst := h.finds [] insn rest rfl
    rw [depth_nil, Int.add_zero] at hfirst
    refine ⟨fun opcode heq => h.known opcode (heq ▸ List.mem_cons_self), hfirst,
      fun opcode hmem => h.known opcode (List.mem_cons_of_mem insn hmem), ?_⟩
    rintro before other behind rfl
    have hother := h.finds (insn :: before) other behind rfl
    rwa [depth_cons, ← Int.add_assoc] at hother
  · rintro ⟨hknown, hfirst, hrest⟩
    refine ⟨fun opcode hmem => ?_, ?_⟩
    · rcases List.mem_cons.1 hmem with heq | hmem
      · exact hknown opcode heq.symm
      · exact hrest.known opcode hmem
    · rintro (_ | ⟨_, before⟩) other behind heq
      · cases heq
        rwa [depth_nil, Int.add_zero]
      · cases heq
        rw [depth_cons, ← Int.add_assoc]
        exact hrest.finds before other behind rfl

/-- There are never fewer than no operands where all that is lost is there. -/
theorem Supplied.depth_nonneg : ∀ {insns : List Instruction} {start : Int},
    Supplied loses start insns → 0 ≤ start →
    ∀ before, before <+: insns → 0 ≤ start + depth before
  | _, start, _, hstart, [], _ => by rwa [depth_nil, Int.add_zero]
  | [], _, _, _, _ :: _, hprefix => absurd (List.prefix_nil.1 hprefix) (List.cons_ne_nil _ _)
  | insn :: rest, start, h, hstart, first :: before, hprefix => by
    obtain ⟨rfl, hbefore⟩ := List.cons_prefix_cons.1 hprefix
    obtain ⟨-, hfirst, hrest⟩ := supplied_cons.1 h
    rw [depth_cons, ← Int.add_assoc]
    exact hrest.depth_nonneg (effect_nonneg hfirst) before hbefore

/-- All that is popped is there exactly if all that is lost is there, and whatever is replaced. -/
theorem supplied_pops_iff : Supplied pops 0 insns ↔ Supplied loses 0 insns ∧
    ∀ before insn behind, insns = before ++ insn :: behind → insn.Replaces → 0 < depth before := by
  have hpops (before : List Instruction) (h : 0 ≤ 0 + depth before) (insn : Instruction) :
      (insn.pops : Int) ≤ 0 + depth before ↔
        (insn.loses : Int) ≤ 0 + depth before ∧ (insn.Replaces → 0 < depth before) := by
    rw [pops_le_iff h, Int.zero_add]
  constructor
  · intro h
    have hnonneg (before : List Instruction) (insn : Instruction) (behind : List Instruction)
        (heq : insns = before ++ insn :: behind) : 0 ≤ 0 + depth before :=
      Int.le_trans (Int.natCast_nonneg _) (h.finds before insn behind heq)
    refine ⟨⟨h.known, fun before insn behind heq => ?_⟩, fun before insn behind heq => ?_⟩
    · exact ((hpops before (hnonneg before insn behind heq) insn).1
        (h.finds before insn behind heq)).1
    · exact ((hpops before (hnonneg before insn behind heq) insn).1
        (h.finds before insn behind heq)).2
  · rintro ⟨h, hreplaces⟩
    refine ⟨h.known, fun before insn behind heq => ?_⟩
    have hnonneg : 0 ≤ 0 + depth before :=
      h.depth_nonneg (Int.le_refl 0) before (heq ▸ List.prefix_append before _)
    exact (hpops before hnonneg insn).2
      ⟨h.finds before insn behind heq, hreplaces before insn behind heq⟩

/-! ### The computation -/

/-- The computation goes through exactly the streams in which all that is lost is there, and keeps
    the greatest depth. -/
theorem deepest_eq_ok : ∀ {insns : List Instruction} {position : Nat} {start greatest top : Int},
    0 ≤ start → start ≤ greatest → (deepest insns position start greatest = .ok top ↔
      Supplied loses start insns ∧ ∃ peak, Peak start insns peak ∧ top = max greatest peak)
  | [], position, start, greatest, top, _, hgreatest => by
    have hsupplied : Supplied loses start [] := ⟨by simp, by simp⟩
    rw [deepest, Except.ok.injEq, and_iff_right hsupplied]
    constructor
    · rintro rfl
      exact ⟨start, .nil start, (Int.max_eq_left hgreatest).symm⟩
    · rintro ⟨peak, hpeak, rfl⟩
      rw [hpeak.unique (.nil start), Int.max_eq_left hgreatest]
  | insn :: rest, position, start, greatest, top, hstart, hgreatest => by
    rw [deepest, supplied_cons]
    cases hdelta : insn.stackDelta? with
    | none =>
      obtain ⟨opcode, rfl⟩ := stackDelta?_eq_none.1 hdelta
      simp
    | some delta =>
      obtain ⟨hknown, rfl⟩ := stackDelta?_eq_some.1 hdelta
      simp only [and_iff_right hknown]
      by_cases hlow : insn.effect < 0 ∧ start + insn.effect < 0
      · have hfirst : ¬ (insn.loses : Int) ≤ start := fun h => (loses_le_iff hstart).1 h hlow
        simp [hlow, hfirst]
      · have hfirst := (loses_le_iff hstart).2 hlow
        have hnext := effect_nonneg hfirst
        rw [if_neg hlow, deepest_eq_ok hnext (Int.le_max_right _ _), and_iff_right hfirst]
        refine and_congr_right fun _ => ?_
        -- the depth at the start is not the greatest seen before it
        have hmax (later : Int) (hlater : start + insn.effect ≤ later) :
            max (max greatest (start + insn.effect)) later = max greatest (max start later) := by
          omega
        constructor
        · rintro ⟨later, hpeak, rfl⟩
          exact ⟨_, hpeak.cons, hmax later hpeak.start_le⟩
        · rintro ⟨peak, hpeak, rfl⟩
          obtain ⟨later, hlater⟩ := Peak.exists_peak (start + insn.effect) rest
          exact ⟨later, hlater, by rw [hpeak.unique hlater.cons, hmax later hlater.start_le]⟩

/-- A depth that is answered is the greatest one, and sixteen bits hold it. -/
theorem maxStack_eq_ok {m : UInt16} :
    maxStack insns = .ok m ↔ deepest insns 0 0 0 = .ok (m.toNat : Int) := by
  unfold maxStack
  cases hdeepest : deepest insns 0 0 0 with
  | error fault => simp
  | ok greatest =>
    have hnonneg : 0 ≤ greatest := by
      obtain ⟨-, peak, -, rfl⟩ := (deepest_eq_ok (Int.le_refl 0) (Int.le_refl 0)).1 hdeepest
      exact Int.le_max_left 0 peak
    have hm := m.toNat_lt
    simp only [Except.ok.injEq]
    by_cases hroom : greatest ≤ 65535
    · rw [if_pos hroom, Except.ok.injEq, ← UInt16.toNat_inj, UInt16.toNat_ofNat']
      omega
    · rw [if_neg hroom]
      simp only [reduceCtorEq, false_iff]
      omega

/-- The greatest depth that is answered is that of a stream in which every effect is known and all
    that is lost is there. Besides, what the instructions pop is there exactly if each new array and
    each copy finds an operand, which the computation does not ask for. -/
theorem maxStack_checks_losses (insns : List Instruction) (m : UInt16) :
    (maxStack insns = .ok m ↔ Supplied loses 0 insns ∧ Peak 0 insns m.toNat) ∧
    (Supplied pops 0 insns ∧ Peak 0 insns m.toNat ↔ maxStack insns = .ok m ∧
      ∀ before insn behind, insns = before ++ insn :: behind → insn.Replaces →
        0 < depth before) := by
  have hok : maxStack insns = .ok m ↔ Supplied loses 0 insns ∧ Peak 0 insns m.toNat := by
    rw [maxStack_eq_ok, deepest_eq_ok (Int.le_refl 0) (Int.le_refl 0)]
    refine and_congr_right fun _ => ⟨?_, fun hpeak => ⟨_, hpeak, ?_⟩⟩
    · rintro ⟨peak, hpeak, hm⟩
      rwa [hm, Int.max_eq_right hpeak.start_le]
    · rw [Int.max_eq_right hpeak.start_le]
  refine ⟨hok, ?_⟩
  rw [hok, supplied_pops_iff]
  exact and_right_comm

/-- The stream that makes an array of one element. -/
def sampleStream : List Instruction :=
  [.pushSmall 1, .newIntArray, .dup, .pushSmall 0, .pushByte 100, .arrayStore,
    .storeField (.intArray "R$styleable" "a"), .finish]

theorem maxStack_checks_losses_sample :
    maxStack sampleStream = .ok 4 ∧ Supplied loses 0 sampleStream ∧ Peak 0 sampleStream 4 ∧
      maxStack [.arrayStore] ≠ .ok 0 := by
  have hok : maxStack sampleStream = .ok 4 := rfl
  obtain ⟨hsupplied, hpeak⟩ := (maxStack_checks_losses sampleStream 4).1.1 hok
  refine ⟨hok, hsupplied, hpeak, fun h => ?_⟩
  have hfinds := ((maxStack_checks_losses [.arrayStore] 0).1.1 h).1.finds [] .arrayStore [] rfl
  exact absurd hfinds (by decide)

/-- A new array is let through on an empty stack, though it pops its length. -/
theorem newArray_unchecked : ¬ ∀ (insns : List Instruction) (m : UInt16),
    maxStack insns = .ok m ↔ Supplied pops 0 insns ∧ Peak 0 insns m.toNat := by
  intro h
  have hok : maxStack [.newIntArray] = .ok 0 := rfl
  have hfinds := ((h [.newIntArray] 0).1 hok).1.finds [] .newIntArray [] rfl
  exact absurd hfinds (by decide)

end ResourceMerge.Instruction

import Mathlib.Order.Lattice
import Mathlib.Order.Defs.LinearOrder
import ResourceMerge.Instruction.StackDepth
import ResourceMerge.Proofs.BodyRoundTrip

/-! A reference machine for class initialisers, with nothing in common with the replay: operands are
    integers and references to arrays on a heap, an instruction that finds the wrong operands, a
    negative length or an index out of bounds gets the machine stuck, and so does an instruction
    without a meaning here and the end of a body that does not return. What the machine does to its
    stack is what the depth of a stream is computed from. -/

namespace ResourceMerge.VirtualMachine

/-- An operand: an integer, or a reference to the array at an address of the heap. -/
inductive Operand where
  | int (value : Int32)
  | reference (address : Nat)
  deriving DecidableEq

/-- A state: the operand stack, its top first, the arrays by address, and which reference was put
    into which static field, in order. -/
structure State where
  operands : List Operand
  heap : List (List Int32)
  assigned : List (FieldRef × Nat)
  deriving DecidableEq

namespace State

/-- The state before the first instruction. -/
def start : State := ⟨[], [], []⟩

/-- The array that a static field refers to: the last one that was put into it. -/
def array? (s : State) (field : FieldRef) : Option (List Int32) :=
  (s.assigned.reverse.lookup field).bind fun address => s.heap[address]?

/-- What an instruction other than a return does; none if the machine gets stuck. -/
def step? (s : State) : Instruction → Option State
  | .pushSmall v | .pushByte v | .pushShort v | .pushConstant v =>
    some { s with operands := .int v :: s.operands }
  | .newIntArray =>
    match s.operands with
    | .int length :: rest =>
      if 0 ≤ length then
        some { s with
          operands := .reference s.heap.length :: rest
          heap := s.heap ++ [List.replicate length.toInt.toNat 0] }
      else none
    | _ => none
  | .dup =>
    match s.operands with
    | top :: rest => some { s with operands := top :: top :: rest }
    | [] => none
  | .arrayStore =>
    match s.operands with
    | .int value :: .int index :: .reference address :: rest =>
      match s.heap[address]? with
      | some cells =>
        if 0 ≤ index ∧ index.toInt.toNat < cells.length then
          some { s with
            operands := rest
            heap := s.heap.set address (cells.set index.toInt.toNat value) }
        else none
      | none => none
    | _ => none
  | .storeField field =>
    match s.operands with
    | .reference address :: rest =>
      some { s with operands := rest, assigned := s.assigned ++ [(field, address)] }
    | _ => none
  | .finish | .other _ => none

end State

/-- The states that a body goes through up to the one in which it returns; none if it gets stuck or
    ends without a return. -/
def execute : List Instruction → State → Option (List State)
  | [], _ => none
  | .finish :: _, s => some [s]
  | insn :: rest, s => do
    let later ← execute rest (← s.step? insn)
    return s :: later

/-- The state that a stretch of code without a return leads to. -/
def walk (insns : List Instruction) (s : State) : Option State := insns.foldlM State.step? s

theorem walk_cons {insn : Instruction} {rest : List Instruction} {s t : State}
    (h : s.step? insn = some t) : walk (insn :: rest) s = walk rest t := by
  rw [walk, List.foldlM_cons, h]
  rfl

theorem walk_append {first second : List Instruction} {s t : State} (h : walk first s = some t) :
    walk (first ++ second) s = walk second t := by
  rw [walk, List.foldlM_append, ← walk, h]
  rfl

/-- Each instruction of a stretch of code has done something. -/
theorem step_of_mem_walk : ∀ {insns : List Instruction} {s t : State}, walk insns s = some t →
    ∀ insn ∈ insns, ∃ u v : State, u.step? insn = some v
  | [], _, _, _ => by simp
  | insn :: rest, s, t, h => by
    rw [walk, List.foldlM_cons] at h
    obtain ⟨middle, hstep, hrest⟩ := Option.bind_eq_some_iff.1 h
    intro other hother
    rcases List.mem_cons.1 hother with rfl | hother
    · exact ⟨s, middle, hstep⟩
    · exact step_of_mem_walk hrest other hother

/-- An instruction that does nothing in any state has no place in it. -/
theorem notMem_of_walk {insns : List Instruction} {insn : Instruction} {s t : State}
    (h : walk insns s = some t) (hstuck : ∀ u : State, u.step? insn = none) : insn ∉ insns := by
  intro hmem
  obtain ⟨u, v, hstep⟩ := step_of_mem_walk h insn hmem
  simp [hstuck u] at hstep

/-- A stretch of code behind which the body returns. -/
theorem execute_of_walk : ∀ {insns : List Instruction} {s t : State}, walk insns s = some t →
    ∃ visited, execute (insns ++ [.finish]) s = some (visited ++ [t])
  | [], s, _, h => by
    cases h
    exact ⟨[], rfl⟩
  | insn :: rest, s, t, h => by
    have hfinish : .finish ∉ insn :: rest := notMem_of_walk h fun _ => rfl
    rw [walk, List.foldlM_cons] at h
    obtain ⟨middle, hstep, hrest⟩ := Option.bind_eq_some_iff.1 h
    obtain ⟨visited, hvisited⟩ := execute_of_walk hrest
    refine ⟨s :: visited, ?_⟩
    rw [List.cons_append, execute, hstep]
    · simp only [Option.bind_eq_bind, Option.bind_some, hvisited]
      rfl
    · rintro rfl
      exact hfinish List.mem_cons_self

/-! ### Depth -/

/-- An instruction that is read back moves the depth of the stack by the effect it was written
    with. -/
theorem depth_of_step {insn : Instruction} {s t : State} (h : s.step? insn.reread = some t) :
    ∃ delta, insn.stackDelta? = some delta ∧
      (t.operands.length : Int) = s.operands.length + delta := by
  obtain ⟨operands, heap, assigned⟩ := s
  cases insn with
  | pushSmall v | pushByte v | pushShort v | pushConstant v =>
    cases h
    exact ⟨1, rfl, by simp⟩
  | newIntArray =>
    simp only [Instruction.reread, State.step?] at h
    split at h
    · split at h
      · cases h
        exact ⟨0, rfl, by simp⟩
      · cases h
    · cases h
  | dup =>
    simp only [Instruction.reread, State.step?] at h
    split at h
    · cases h
      exact ⟨1, rfl, by simp⟩
    · cases h
  | arrayStore =>
    simp only [Instruction.reread, State.step?] at h
    split at h
    · split at h
      · split at h
        · cases h
          exact ⟨-3, rfl, by simp only [List.length_cons]; omega⟩
        · cases h
      · cases h
    · cases h
  | storeField field =>
    simp only [Instruction.reread] at h
    split at h
    · simp only [State.step?] at h
      split at h
      · cases h
        exact ⟨-1, rfl, by simp only [List.length_cons]; omega⟩
      · cases h
    · cases h
  | finish => cases h
  | other opcode => cases h

/-- Before a body returns, it makes steps. -/
theorem execute_cons {insn : Instruction} {rest : List Instruction} {s : State}
    {visited : List State} (h : execute (insn :: rest) s = some visited) (hinsn : insn ≠ .finish) :
    ∃ t later, s.step? insn = some t ∧ execute rest t = some later ∧ visited = s :: later := by
  rw [execute] at h
  · obtain ⟨t, hstep, hrest⟩ := Option.bind_eq_some_iff.1 h
    obtain ⟨later, hlater, hvisited⟩ := Option.bind_eq_some_iff.1 hrest
    cases hvisited
    exact ⟨t, later, hstep, hlater, rfl⟩
  · exact hinsn

/-- The first state gone through is the one that the body starts in. -/
theorem mem_of_execute {insns : List Instruction} {s : State} {visited : List State}
    (h : execute insns s = some visited) : s ∈ visited := by
  cases insns with
  | nil => cases h
  | cons insn rest =>
    by_cases hinsn : insn = .finish
    · subst hinsn
      cases h
      exact List.mem_singleton_self s
    · obtain ⟨_, later, -, -, rfl⟩ := execute_cons h hinsn
      exact List.mem_cons_self

theorem reread_ne_finish {insn : Instruction} (h : insn ≠ .finish) : insn.reread ≠ .finish := by
  cases insn with
  | finish => exact absurd rfl h
  | storeField field =>
    rw [Instruction.reread]
    split <;> simp
  | _ => simp [Instruction.reread]

/-- The depth computed from a body that returns at its end is the greatest that the machine sees. -/
theorem deepest_of_execute : ∀ {insns : List Instruction} {s : State} {visited : List State}
    (position : Nat) {greatest : Int},
    execute (insns.map Instruction.reread ++ [.finish]) s = some visited → .finish ∉ insns →
    (s.operands.length : Int) ≤ greatest →
    ∃ depth, Instruction.deepest (insns ++ [.finish]) position s.operands.length greatest = .ok depth ∧
      greatest ≤ depth ∧ (∀ t ∈ visited, (t.operands.length : Int) ≤ depth) ∧
      (depth = greatest ∨ ∃ t ∈ visited, (t.operands.length : Int) = depth)
  | [], s, visited, position, greatest, h, _, hs => by
    cases h
    refine ⟨greatest, ?_, le_refl _, by simpa using hs, .inl rfl⟩
    simp [Instruction.deepest, Instruction.stackDelta?, max_eq_left hs]
  | insn :: insns, s, visited, position, greatest, h, hfinish, hs => by
    -- the rest of the body starts one step later, with this step's depth among those seen
    rw [List.mem_cons, not_or] at hfinish
    obtain ⟨t, later, hstep, hlater, rfl⟩ := execute_cons h (reread_ne_finish (Ne.symm hfinish.1))
    obtain ⟨delta, hdelta, hdepth⟩ := depth_of_step hstep
    obtain ⟨depth, hok, hgreatest, hbound, hreached⟩ :=
      deepest_of_execute (position + 1) hlater hfinish.2 (le_max_right greatest _)
    refine ⟨depth, ?_, (le_max_left _ _).trans hgreatest, ?_, ?_⟩
    · rw [List.cons_append, Instruction.deepest, hdelta]
      simp only
      rw [if_neg (by omega), ← hdepth]
      exact hok
    · intro u hu
      rcases List.mem_cons.1 hu with rfl | hu
      · exact hs.trans ((le_max_left _ _).trans hgreatest)
      · exact hbound u hu
    · rcases hreached with hmax | ⟨u, hu, hdeep⟩
      · rcases le_total (t.operands.length : Int) greatest with hle | hle
        · exact .inl (hmax.trans (max_eq_left hle))
        · refine .inr ⟨t, List.mem_cons_of_mem _ (mem_of_execute hlater), ?_⟩
          exact (hmax.trans (max_eq_right hle)).symm
      · exact .inr ⟨u, List.mem_cons_of_mem _ hu, hdeep⟩

/-- The recorded depth of a body is the greatest that the machine sees, no more and no less. -/
theorem maxStack_of_execute {insns : List Instruction} {visited : List State} {maxStack : UInt16}
    (h : execute (insns.map Instruction.reread ++ [.finish]) .start = some visited)
    (hfinish : .finish ∉ insns)
    (hmax : Instruction.maxStack (insns ++ [.finish]) = .ok maxStack) :
    (∀ t ∈ visited, t.operands.length ≤ maxStack.toNat) ∧
      ∃ t ∈ visited, t.operands.length = maxStack.toNat := by
  obtain ⟨depth, hdeepest, hpos, hbound, hreached⟩ :=
    deepest_of_execute 0 h hfinish (le_refl (State.start.operands.length : Int))
  have hstart : (State.start.operands.length : Int) = 0 := rfl
  rw [hstart] at hdeepest hpos hreached
  simp only [Instruction.maxStack, hdeepest] at hmax
  split at hmax
  · rename_i hfits
    cases hmax
    have hdepth : ((UInt16.ofNat depth.toNat).toNat : Int) = depth := by
      rw [UInt16.toNat_ofNat']
      omega
    refine ⟨fun t ht => ?_, ?_⟩
    · have hle := hbound t ht
      omega
    · rcases hreached with hzero | ⟨t, ht, hdeep⟩
      · exact ⟨.start, mem_of_execute h, by omega⟩
      · exact ⟨t, ht, by omega⟩
  · cases hmax

end ResourceMerge.VirtualMachine

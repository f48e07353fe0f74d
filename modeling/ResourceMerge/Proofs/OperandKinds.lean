import ResourceMerge.Proofs.Script
import ResourceMerge.Proofs.Simulation

/-! Which operands a replay checks. A machine that executes the same instructions has integers and
    references on its stack, and each instruction wants operands of certain kinds there. The stack
    of the replay is the upper end of this stack: it is the same up to the first store into a field,
    which clears it. So an instruction that finds its operands in the replay finds them on the
    machine too, and where they are missing the replay ends in a fault. The store into a field is
    the exception. It takes the array under construction, not the one on top of the stack, and is
    content if there is one, so it also succeeds where the machine would get stuck. -/

namespace ResourceMerge

open Initializer

/-- What kind of thing an operand is. -/
inductive OperandKind where
  | int
  | array
  deriving DecidableEq

namespace Instruction

/-- The operands that an instruction takes are on a stack, the top of which comes first. -/
def Finds : Instruction → List OperandKind → Prop
  | .newIntArray, stack => [.int] <+: stack
  | .dup, stack => stack ≠ []
  | .arrayStore, stack => [.int, .int, .array] <+: stack
  | .storeField _, stack => [.array] <+: stack
  | _, _ => True

/-- What an instruction is known to leave on a stack: nothing, if it did not find its operands, or
    if its effect is not known. -/
def leaves : Instruction → List OperandKind → List OperandKind
  | .pushSmall _, stack | .pushByte _, stack | .pushShort _, stack | .pushConstant _, stack =>
    .int :: stack
  | .newIntArray, .int :: rest => .array :: rest
  | .dup, top :: rest => top :: top :: rest
  | .arrayStore, .int :: .int :: .array :: rest => rest
  | .storeField _, .array :: rest => rest
  | .finish, stack => stack
  | _, _ => []

theorem finds_of_pushes {insn : Instruction} {v : Int32} (h : insn.Pushes v)
    (stack : List OperandKind) : insn.Finds stack := by
  rcases h with rfl | rfl | rfl | rfl <;> trivial

theorem leaves_of_pushes {insn : Instruction} {v : Int32} (h : insn.Pushes v)
    (stack : List OperandKind) : insn.leaves stack = .int :: stack := by
  rcases h with rfl | rfl | rfl | rfl <;> rfl

end Instruction

/-- What is known to be on an empty stack after some instructions. -/
def stackAfter (insns : List Instruction) : List OperandKind :=
  insns.foldl (fun stack insn => insn.leaves stack) []

theorem stackAfter_concat (insns : List Instruction) (insn : Instruction) :
    stackAfter (insns ++ [insn]) = insn.leaves (stackAfter insns) := by
  simp [stackAfter]

/-! ### The reference machine -/

namespace VirtualMachine

/-- The kind of an operand of the reference machine. -/
def Operand.kind : Operand → OperandKind
  | .int _ => .int
  | .reference _ => .array

/-- An instruction that does not get the machine stuck finds its operands, and leaves what it is
    known to leave. -/
theorem kinds_of_step {insn : Instruction} {s t : State} (h : s.step? insn = some t) :
    insn.Finds (s.operands.map Operand.kind) ∧
      t.operands.map Operand.kind = insn.leaves (s.operands.map Operand.kind) := by
  obtain ⟨operands, heap, assigned⟩ := s
  cases insn with
  | pushSmall v | pushByte v | pushShort v | pushConstant v =>
    cases h
    exact ⟨trivial, rfl⟩
  | newIntArray =>
    simp only [State.step?] at h
    split at h
    · split at h
      · cases h
        exact ⟨⟨_, rfl⟩, rfl⟩
      · cases h
    · cases h
  | dup =>
    simp only [State.step?] at h
    split at h
    · cases h
      exact ⟨List.cons_ne_nil _ _, rfl⟩
    · cases h
  | arrayStore =>
    simp only [State.step?] at h
    split at h
    · split at h
      · split at h
        · cases h
          exact ⟨⟨_, rfl⟩, rfl⟩
        · cases h
      · cases h
    · cases h
  | storeField field =>
    simp only [State.step?] at h
    split at h
    · cases h
      exact ⟨⟨_, rfl⟩, rfl⟩
    · cases h
  | finish | other opcode => cases h

/-- After code that does not get the machine stuck, its stack is what is known of it. -/
theorem stackAfter_of_walk {insns : List Instruction} {t : State} (h : walk insns .start = some t) :
    stackAfter insns = t.operands.map Operand.kind := by
  suffices hfrom : ∀ (insns : List Instruction) (s : State), walk insns s = some t →
      insns.foldl (fun stack insn => insn.leaves stack) (s.operands.map Operand.kind)
        = t.operands.map Operand.kind from hfrom insns .start h
  intro insns
  induction insns with
  | nil =>
    intro s h
    cases h
    rfl
  | cons insn rest ih =>
    intro s h
    rw [walk, List.foldlM_cons] at h
    obtain ⟨middle, hstep, hrest⟩ := Option.bind_eq_some_iff.1 h
    rw [List.foldl_cons, ← (kinds_of_step hstep).2]
    exact ih middle hrest

end VirtualMachine

namespace Initializer

/-- The kind of an operand of a replay. -/
def Slot.kind : Slot → OperandKind
  | .int _ => .int
  | .array => .array

/-- An array was created behind the last store into a field. -/
def Allocated (insns : List Instruction) : Prop :=
  ∃ front back, insns = front ++ .newIntArray :: back ∧ ∀ field, .storeField field ∉ back

theorem Allocated.concat {insns : List Instruction} (h : Allocated insns) {insn : Instruction}
    (hstore : ∀ field, insn ≠ .storeField field) : Allocated (insns ++ [insn]) := by
  obtain ⟨front, back, rfl, hback⟩ := h
  refine ⟨front, back ++ [insn], by simp, fun field hmem => ?_⟩
  rcases List.mem_append.1 hmem with hmem | hmem
  · exact hback field hmem
  · exact hstore field (List.mem_singleton.1 hmem).symm

/-! ### What a replay knows of the stack -/

/-- The replay after some instructions: its stack is the upper end of what is known to be on the
    stack, and an array under construction was created behind the last store into a field. -/
structure Follows (done : List Instruction) (m : Machine) : Prop where
  stack : m.stack.map Slot.kind <+: stackAfter done
  pending : m.pending.isSome → Allocated done

variable {done before insns rest : List Instruction} {insn : Instruction} {m m' : Machine}
  {table : SymbolTable}

theorem start_follows (table : SymbolTable) : Follows [] (.start table) where
  stack := List.nil_prefix
  pending := by
    intro h
    cases h

/-- An instruction that goes on finds its operands, unless it is a store into a field. -/
theorem Follows.finds (h : Follows done m) (hmoves : Moves insn m m')
    (hstore : ∀ field, insn ≠ .storeField field) : insn.Finds (stackAfter done) := by
  obtain ⟨tail, htail⟩ := h.stack
  rw [← htail]
  cases hmoves with
  | push hpush => exact insn.finds_of_pushes hpush _
  | newArray => exact ⟨_, rfl⟩
  | dup => exact List.cons_ne_nil _ _
  | store => exact ⟨_, rfl⟩
  | commit => exact absurd rfl (hstore _)
  | other => trivial

/-- What the replay has on its stack behind an instruction is the upper end of what the instruction
    is known to leave. -/
theorem stack_of_moves (hmoves : Moves insn m m') (hother : ∀ op, insn ≠ .other op)
    {stack : List OperandKind} (hstack : m.stack.map Slot.kind <+: stack) :
    m'.stack.map Slot.kind <+: insn.leaves stack := by
  obtain ⟨tail, rfl⟩ := hstack
  cases hmoves with
  | push hpush =>
    rw [insn.leaves_of_pushes hpush]
    exact ⟨tail, rfl⟩
  | newArray | dup | store => exact ⟨tail, rfl⟩
  | commit =>
    -- the replay keeps nothing of the stack, so nothing has to be known of it
    exact List.nil_prefix
  | other => exact absurd rfl (hother _)

/-- An array is under construction because it has just been created, or it was so before. -/
theorem allocated_of_moves (hmoves : Moves insn m m') (h : m.pending.isSome → Allocated done)
    (hsome : m'.pending.isSome) : Allocated (done ++ [insn]) := by
  cases hmoves with
  | push hpush =>
    refine (h hsome).concat ?_
    rintro field rfl
    rcases hpush with hpush | hpush | hpush | hpush <;> cases hpush
  | newArray => exact ⟨done, [], rfl, by simp⟩
  | dup | other => exact (h hsome).concat nofun
  | store => exact (h rfl).concat nofun
  | commit => cases hsome

/-- The invariant goes through an instruction. -/
theorem Follows.after (h : Follows done m) (hmoves : Moves insn m m')
    (hother : ∀ op, insn ≠ .other op) : Follows (done ++ [insn]) m' where
  stack := by
    rw [stackAfter_concat]
    exact stack_of_moves hmoves hother h.stack
  pending := allocated_of_moves hmoves h.pending

/-! ### Up to an instruction -/

/-- Where a replay stands when it performs an instruction: it has gone through the instructions
    before, and its outcome is that of the instructions from there on. -/
theorem reaches : ∀ {before insns : List Instruction} {done : List Instruction} {m : Machine},
    Follows done m → (∀ op, .other op ∉ insns) →
    before ++ [insn] <+: (visits insns m).map Prod.fst →
    ∃ rest m', Follows (done ++ before) m' ∧ run insns m = run (insn :: rest) m'
  | before, [], done, m, _, _, hvisits => by
    simp [visits] at hvisits
  | [], first :: rest, done, m, hfollows, _, hvisits => by
    have hfirst : insn = first := (List.cons_prefix_cons.1 hvisits).1
    rw [hfirst, List.append_nil]
    exact ⟨rest, m, hfollows, rfl⟩
  | next :: before, first :: rest, done, m, hfollows, hother, hvisits => by
    obtain ⟨hfirst, hrest⟩ := List.cons_prefix_cons.1 hvisits
    obtain rfl : next = first := hfirst
    have hnext : ∀ op, next ≠ .other op := by
      rintro op rfl
      exact hother op List.mem_cons_self
    cases hstep : step next m with
    | error e m' =>
      rw [hstep] at hrest
      simp at hrest
    | ok goesOn middle =>
      rw [hstep] at hrest
      cases goesOn with
      | false => simp at hrest
      | true =>
        have hfollows := hfollows.after (step_eq_true.1 hstep) hnext
        obtain ⟨behind, m', hm', hrun⟩ :=
          reaches hfollows (fun op hmem => hother op (List.mem_cons_of_mem _ hmem)) hrest
        refine ⟨behind, m', by simpa using hm', ?_⟩
        rw [run_step, hstep]
        exact hrun

/-! ### Faults -/

/-- A piece of a replay that fails with faults of the stream only. -/
def OnlyFaults {α : Type} (x : Replay α) : Prop :=
  ∀ m, Ends x m (fun _ _ => True) fun e _ => ∃ f, e = .malformed f

/-- What has nothing to do with the table meets no conflict. -/
theorem Plain.onlyFaults {α : Type} {x : Replay α} (h : Plain x) : OnlyFaults x := by
  induction h with
  | pure a => exact fun _ => trivial
  | fault f => exact fun _ => ⟨f, rfl⟩
  | push slot => exact fun _ => trivial
  | pop? =>
    rintro ⟨_ | ⟨slot, stack⟩, pending, table, committed⟩
    · trivial
    · trivial
  | bind _ _ hx hf => exact fun m => (hx m).andThen (fun a next _ => hf a next) fun _ _ h => h
  | look _ _ hf => exact fun m => hf m m
  | update _ => exact fun _ => trivial

/-! ### What is demanded -/

/-- What a replay demands at an instruction behind others: a store into a field needs an array that
    was created behind the last one, whatever is on the stack; any other instruction needs its
    operands. -/
def Demands (before : List Instruction) : Instruction → Prop
  | .storeField _ => Allocated before
  | insn => insn.Finds (stackAfter before)

theorem demands_iff {insn : Instruction} (hstore : ∀ field, insn ≠ .storeField field) :
    Demands before insn ↔ insn.Finds (stackAfter before) := by
  cases insn with
  | storeField field => exact absurd rfl (hstore field)
  | _ => rfl

/-- An instruction without what is demanded ends the replay in a fault. -/
theorem Follows.faults (h : Follows before m) (hmissing : ¬ Demands before insn) :
    ∃ f m', run (insn :: rest) m = .error (.malformed f) m' := by
  by_cases hstore : ∃ field, insn = .storeField field
  · obtain ⟨field, rfl⟩ := hstore
    obtain ⟨stack, pending, table, committed⟩ := m
    cases pending with
    | some array => exact absurd (h.pending rfl) hmissing
    | none => exact ⟨.fieldWithoutArray field.name, _, rfl⟩
  · have hstore : ∀ field, insn ≠ .storeField field := fun field heq => hstore ⟨field, heq⟩
    rw [demands_iff hstore] at hmissing
    cases hstep : step insn m with
    | error e m' =>
      obtain ⟨f, rfl⟩ := ((step_plain hstore).onlyFaults m).of_error hstep
      exact ⟨f, m', by rw [run_step, hstep]⟩
    | ok goesOn m' =>
      -- an instruction that does not fail has found its operands
      cases goesOn with
      | true => exact absurd (h.finds (step_eq_true.1 hstep) hstore) hmissing
      | false =>
        obtain ⟨rfl, -⟩ := step_eq_false.1 hstep
        exact absurd trivial hmissing

/-- A replay that succeeds has met all demands: wherever it performed an instruction other than a
    store into a field, the operands of the instruction were on the stack, and wherever it stored
    into a field, an array had been created behind the last store. A replay that comes to an
    instruction without that ends in a fault of the stream. -/
theorem run_demands {insns : List Instruction} {table : SymbolTable}
    (hother : ∀ op, .other op ∉ insns) :
    (∀ n m, run insns (.start table) = .ok n m → ∀ before insn,
      before ++ [insn] <+: (visits insns (.start table)).map Prod.fst → Demands before insn) ∧
    ∀ before insn, before ++ [insn] <+: (visits insns (.start table)).map Prod.fst →
      ¬ Demands before insn → ∃ f m, run insns (.start table) = .error (.malformed f) m := by
  have hfaults : ∀ before insn, before ++ [insn] <+: (visits insns (.start table)).map Prod.fst →
      ¬ Demands before insn → ∃ f m, run insns (.start table) = .error (.malformed f) m := by
    intro before insn hvisits hmissing
    obtain ⟨rest, m, hfollows, hrun⟩ := reaches (start_follows table) hother hvisits
    rw [hrun]
    exact hfollows.faults hmissing
  refine ⟨fun n m hrun before insn hvisits => ?_, hfaults⟩
  by_contra hmissing
  obtain ⟨f, m', hfault⟩ := hfaults before insn hvisits hmissing
  rw [hrun] at hfault
  cases hfault

/-- A value stored into an array, and then a copy of the top of the stack, which is empty because
    the reference was not copied before. -/
theorem run_demands_sample :
    let insns : List Instruction := [.pushSmall 1, .newIntArray, .pushSmall 0, .pushByte 7,
      .arrayStore, .dup, .finish]
    (∃ f m, run insns (.start .empty) = .error (.malformed f) m) ∧
      ∃ m, run (insns.take 5) (.start .empty) = .ok 0 m ∧
        Instruction.arrayStore.Finds (stackAfter (insns.take 4)) := by
  intro insns
  have hvisits : (visits insns (.start .empty)).map Prod.fst = insns.take 6 := by decide +kernel
  obtain ⟨-, hfaults⟩ := @run_demands insns .empty (by simp [insns])
  have hfault := hfaults (insns.take 5) .dup (by rw [hvisits]; decide +kernel) fun h => h rfl
  have hends : endsIn (fun n _ => decide (n = 0)) (run (insns.take 5) (.start .empty)) = true := by
    decide +kernel
  obtain ⟨n, m, hrun, htest⟩ := exists_of_endsIn hends
  obtain rfl := of_decide_eq_true htest
  have hvisits : (visits (insns.take 5) (.start .empty)).map Prod.fst = insns.take 5 := by
    decide +kernel
  obtain ⟨hmet, -⟩ := @run_demands (insns.take 5) .empty (by simp [insns])
  have hfinds := hmet 0 m hrun (insns.take 4) .arrayStore (by rw [hvisits]; decide +kernel)
  exact ⟨hfault, m, hrun, hfinds⟩

/-- The only reference is gone after the store into the array. The store into the field succeeds all
    the same, where the reference machine has no operand on its stack. -/
theorem storeField_unchecked :
    let insns : List Instruction := [.pushSmall 1, .newIntArray, .pushSmall 0, .pushSmall 7,
      .arrayStore, .storeField (.intArray "R" "a"), .finish]
    (∀ op, .other op ∉ insns) ∧
      (∃ m, run insns (.start .empty) = .ok 1 m ∧ m.table.array? "a" = some [7]) ∧
      ∃ before insn s, before ++ [insn] <+: (visits insns (.start .empty)).map Prod.fst ∧
        VirtualMachine.walk before .start = some s ∧
        ¬ insn.Finds (s.operands.map VirtualMachine.Operand.kind) := by
  intro insns
  have hends : endsIn (fun n m => decide (n = 1 ∧ m.table.array? "a" = some [7]))
      (run insns (.start .empty)) = true := by decide +kernel
  obtain ⟨n, m, hrun, htest⟩ := exists_of_endsIn hends
  obtain ⟨rfl, hvalues⟩ := of_decide_eq_true htest
  have hvisits : (visits insns (.start .empty)).map Prod.fst = insns := by decide +kernel
  have hreached : (insns.take 5 ++ [.storeField (.intArray "R" "a")])
      <+: (visits insns (.start .empty)).map Prod.fst := by
    rw [hvisits]
    exact ⟨[.finish], rfl⟩
  have hwalk : VirtualMachine.walk (insns.take 5) .start = some ⟨[], [[7]], []⟩ := by
    decide +kernel
  exact ⟨by simp [insns], ⟨m, hrun, hvalues⟩, _, _, _, hreached, hwalk, by simp [Instruction.Finds]⟩

end Initializer

end ResourceMerge

import ResourceMerge.Proofs.Insertion
import ResourceMerge.Proofs.MergedExecution
import ResourceMerge.Proofs.ReplaySteps

/-! A replay against the reference machine. The replay knows one array at a time, and all references
    on its stack are the same token; on the machine they are addresses. Between two arrays there is
    no reference on the stack. While an array is built, it is the last one on the heap, every
    reference on the stack is its address, and each cell that was written is what the replay has
    there; the cells not written are zero, which is of no matter, since an array with such a cell
    is put into no field.

    The token would keep standing for the next array if a reference survived the store into a field:
    the replay drops it, the machine does not. So the stores have to find the reference alone on
    the stack. -/

namespace ResourceMerge

open Initializer

/-- The field that an instruction stores into. -/
def Instruction.stored? : Instruction → Option FieldRef
  | .storeField field => some field
  | _ => none

/-- The instructions that a replay performs, each with the state that it finds. -/
def Initializer.visits : List Instruction → Machine → List (Instruction × Machine)
  | [], _ => []
  | insn :: rest, m => (insn, m) :: match step insn m with
    | .ok true m' => visits rest m'
    | _ => []

theorem Initializer.visits_cons {insn : Instruction} {rest : List Instruction} {m m' : Machine}
    (h : Moves insn m m') : visits (insn :: rest) m = (insn, m) :: visits rest m' := by
  rw [visits, step_eq_true.2 h]

theorem Initializer.visits_finish (rest : List Instruction) (m : Machine) :
    visits (.finish :: rest) m = [(.finish, m)] :=
  rfl

namespace VirtualMachine

/-- The state in which a body returns or ends; none if the machine gets stuck before. -/
def complete : List Instruction → State → Option State
  | [], s => some s
  | .finish :: _, s => some s
  | insn :: rest, s => do complete rest (← s.step? insn)

/-! ### Corresponding states -/

/-- What is on the machine's stack, if the array under construction has the address. -/
def image (address : Nat) : Slot → Operand
  | .int v => .int v
  | .array => .reference address

/-- Every array that was put into a field is what the table has under the name of that field. -/
def Settled (heap : List (List Int32)) (assigned : List (FieldRef × Nat)) (table : SymbolTable) :
    Prop :=
  ∀ place ∈ assigned, ∃ values, heap[place.2]? = some values ∧
    table.array? place.1.name = some values

/-- A state of the replay and the state of the machine after the same instructions. -/
inductive Simulates : Machine → State → Prop where
  | idle {stack : List Slot} {table : SymbolTable} {committed : Nat} {heap : List (List Int32)}
      {assigned : List (FieldRef × Nat)} (hstack : .array ∉ stack)
      (hsettled : Settled heap assigned table) (hcommitted : committed = assigned.length) :
      Simulates ⟨stack, none, table, committed⟩ ⟨stack.map (image heap.length), heap, assigned⟩
  | building {stack : List Slot} {array : PendingArray} {table : SymbolTable} {committed : Nat}
      {heap : List (List Int32)} {cells : List Int32} {assigned : List (FieldRef × Nat)}
      (hlength : cells.length = array.length)
      (hcells : ∀ (i : Nat) (v : Int32), array.written[i]? = some v → cells[i]? = some v)
      (hsettled : Settled heap assigned table) (hcommitted : committed = assigned.length) :
      Simulates ⟨stack, some array, table, committed⟩
        ⟨stack.map (image heap.length), heap ++ [cells], assigned⟩

variable {heap : List (List Int32)} {assigned : List (FieldRef × Nat)} {table table' : SymbolTable}
  {cells values : List Int32} {array : PendingArray} {field : FieldRef}

/-- An array of which every cell was written is what was written. -/
theorem cells_eq_values (hlength : cells.length = array.length)
    (hcells : ∀ (i : Nat) (v : Int32), array.written[i]? = some v → cells[i]? = some v)
    (hsize : values.length = array.length)
    (hvalues : ∀ i < array.length, array.written[i]? = values[i]?) : cells = values := by
  refine List.ext_getElem? fun i => ?_
  by_cases hi : i < array.length
  · have hvalue := List.getElem?_eq_getElem (hsize ▸ hi)
    rw [hvalue, hcells i _ ((hvalues i hi).trans hvalue)]
  · rw [List.getElem?_eq_none (by omega), List.getElem?_eq_none (by omega)]

/-- A store writes the same cell on both sides. -/
theorem written_store {index : Nat} {value : Int32}
    (hcells : ∀ (i : Nat) (v : Int32), array.written[i]? = some v → cells[i]? = some v)
    (hindex : index < cells.length) (i : Nat) (v : Int32)
    (hi : (array.written.insert index value)[i]? = some v) :
    (cells.set index value)[i]? = some v := by
  rw [Std.TreeMap.getElem?_insert] at hi
  rw [List.getElem?_set]
  by_cases heq : index = i
  · subst heq
    simpa [hindex] using hi
  · rw [if_neg (by simpa using heq)] at hi
    rw [if_neg heq]
    exact hcells i v hi

/-- The array goes into its field and, under the name of the field, into the table. -/
theorem Settled.commit (h : Settled heap assigned table)
    (hinsert : SymbolTable.insertArray field.name values table = .ok () table') :
    Settled (heap ++ [values]) (assigned ++ [(field, heap.length)]) table' := by
  intro place hplace
  rcases List.mem_append.1 hplace with hplace | hplace
  · obtain ⟨held, hheap, htable⟩ := h place hplace
    refine ⟨held, ?_, (SymbolTable.arrays_isPart.find?_of_insert hinsert _ _).2 (.inl htable)⟩
    rw [List.getElem?_append_left (List.getElem?_eq_some_iff.1 hheap).1, hheap]
  · obtain rfl := List.mem_singleton.1 hplace
    exact ⟨values, by simp,
      (SymbolTable.arrays_isPart.find?_of_insert hinsert _ _).2 (.inr ⟨rfl, rfl⟩)⟩

/-! ### Steps and runs -/

theorem stored?_of_pushes {insn : Instruction} {v : Int32} (h : insn.Pushes v) :
    insn.stored? = none := by
  rcases h with rfl | rfl | rfl | rfl <;> rfl

/-- One instruction takes corresponding states to corresponding states. -/
theorem simulates_step {insn : Instruction} {m m' : Machine} {s : State} (h : Simulates m s)
    (hmoves : Moves insn m m') (hother : ∀ op, insn ≠ .other op)
    (hstore : ∀ field, insn = .storeField field → m.stack = [.array]) :
    ∃ t, s.step? insn = some t ∧ Simulates m' t ∧
      t.assigned.map Prod.fst = s.assigned.map Prod.fst ++ insn.stored?.toList := by
  cases hmoves with
  | push hpush =>
    rw [step_of_pushes hpush, stored?_of_pushes hpush]
    cases h with
    | idle hstack hsettled hcommitted =>
      exact ⟨_, rfl, .idle (by simpa using hstack) hsettled hcommitted, by simp⟩
    | building hlength hcells hsettled hcommitted =>
      exact ⟨_, rfl, .building hlength hcells hsettled hcommitted, by simp⟩
  | newArray hlength =>
    obtain ⟨hstack, hsettled, hcommitted⟩ | _ := h
    refine ⟨_, if_pos hlength, .building (by simp [PendingArray.new]) ?_ hsettled hcommitted,
      by simp [Instruction.stored?]⟩
    simp [PendingArray.new]
  | dup =>
    cases h with
    | idle hstack hsettled hcommitted =>
      exact ⟨_, rfl, .idle (by simpa using hstack) hsettled hcommitted, by simp [Instruction.stored?]⟩
    | building hlength hcells hsettled hcommitted =>
      exact ⟨_, rfl, .building hlength hcells hsettled hcommitted, by simp [Instruction.stored?]⟩
  | @store value index rest array _ _ hindex hwithin =>
    obtain _ | @⟨_, _, _, _, heap, cells, assigned, hlength, hcells, hsettled, hcommitted⟩ := h
    have hcell : 0 ≤ index ∧ index.toInt.toNat < cells.length := ⟨hindex, hlength ▸ hwithin⟩
    refine ⟨⟨rest.map (image heap.length), heap ++ [cells.set index.toInt.toNat value], assigned⟩,
      ?_, .building (by simpa using hlength) (written_store hcells hcell.2) hsettled hcommitted,
      by simp [Instruction.stored?]⟩
    have hlast : (heap ++ [cells])[heap.length]? = some cells := by simp
    simp only [State.step?, List.map_cons, image, hlast]
    rw [if_pos hcell, List.set_append_right _ _ (le_refl _), Nat.sub_self]
    rfl
  | @commit field _ array values _ _ _ hsize hvalues hinsert =>
    obtain _ | ⟨hlength, hcells, hsettled, hcommitted⟩ := h
    obtain rfl := hstore field rfl
    obtain rfl := cells_eq_values hlength hcells hsize hvalues
    exact ⟨_, rfl, .idle (by simp) (hsettled.commit hinsert) (by simp [hcommitted]), List.map_append⟩
  | other => exact absurd rfl (hother _)

/-- A whole run, from corresponding states on. -/
theorem simulates_run : ∀ {insns : List Instruction} {m m' : Machine} {s : State} {n : Nat},
    Simulates m s → run insns m = .ok n m' → (∀ op, .other op ∉ insns) →
    (∀ field before, (.storeField field, before) ∈ visits insns m → before.stack = [.array]) →
    ∃ t, complete insns s = some t ∧ Simulates m' t ∧ n = m'.committed ∧
      t.assigned.map Prod.fst
        = s.assigned.map Prod.fst ++ (visits insns m).filterMap fun visit => visit.1.stored?
  | [], m, m', s, n, h, hrun, _, _ => by
    cases hrun
    exact ⟨s, rfl, h, rfl, (List.append_nil _).symm⟩
  | insn :: rest, m, m', s, n, h, hrun, hother, hstores => by
    rcases run_cons_eq_ok.1 hrun with ⟨middle, hmoves, hrest⟩ | ⟨rfl, rfl, rfl⟩
    · rw [visits_cons hmoves] at hstores ⊢
      have hinsn : ∀ op, insn ≠ .other op := fun op heq => hother op (heq ▸ List.mem_cons_self)
      obtain ⟨next, hstep, hnext, hassigned⟩ := simulates_step h hmoves hinsn
        fun field heq => hstores field m (heq ▸ List.mem_cons_self)
      obtain ⟨t, hcomplete, ht, hn, hlater⟩ := simulates_run hnext hrest
        (fun op hop => hother op (List.mem_cons_of_mem _ hop))
        fun field before hbefore => hstores field before (List.mem_cons_of_mem _ hbefore)
      refine ⟨t, ?_, ht, hn, ?_⟩
      · rw [complete, hstep]
        · exact hcomplete
        · rintro rfl
          cases hstep
      · rw [hlater, hassigned, List.append_assoc]
        cases hstored : insn.stored? <;> simp [hstored]
    · refine ⟨s, rfl, h, rfl, ?_⟩
      simp [visits_finish, Instruction.stored?]

/-- In corresponding states, the number of arrays is that of the stores, and what the fields refer to
    is what the table has. -/
theorem Simulates.outcome {m : Machine} {s : State} (h : Simulates m s) :
    m.committed = s.assigned.length ∧ Settled s.heap s.assigned m.table := by
  cases h with
  | idle _ hsettled hcommitted => exact ⟨hcommitted, hsettled⟩
  | building _ _ hsettled hcommitted =>
    refine ⟨hcommitted, fun place hplace => ?_⟩
    obtain ⟨values, hheap, htable⟩ := hsettled place hplace
    refine ⟨values, ?_, htable⟩
    rw [List.getElem?_append_left (List.getElem?_eq_some_iff.1 hheap).1, hheap]

/-- A replay that succeeds, and finds nothing but one reference on the stack whenever it stores into
    a field, does what the machine does: the machine does not get stuck, it stores into the same
    fields in the same order, as many as the replay counts, and in the end each array that it stored
    is the one that the table has under the name of the field. -/
theorem replay_simulated {table : SymbolTable} {insns : List Instruction} {n : Nat} {m : Machine}
    (hother : ∀ op, .other op ∉ insns) (hrun : run insns (.start table) = .ok n m)
    (hstores : ∀ field before, (.storeField field, before) ∈ visits insns (.start table) →
      before.stack = [.array]) :
    ∃ final, complete insns .start = some final ∧
      final.assigned.map Prod.fst
        = ((visits insns (.start table)).filterMap fun visit => visit.1.stored?) ∧
      (∀ field address, (field, address) ∈ final.assigned → ∃ values,
        final.heap[address]? = some values ∧ m.table.array? field.name = some values) ∧
      n = final.assigned.length := by
  have hstart : Simulates (.start table) .start :=
    .idle List.not_mem_nil (fun _ hplace => absurd hplace List.not_mem_nil) rfl
  obtain ⟨final, hcomplete, hfinal, hn, hfields⟩ := simulates_run hstart hrun hother hstores
  obtain ⟨hcommitted, hsettled⟩ := hfinal.outcome
  exact ⟨final, hcomplete, hfields, fun field address hplace => hsettled (field, address) hplace,
    hn.trans hcommitted⟩

/-- An array with cells written out of order and twice, and an empty array. -/
theorem replay_simulated_sample :
    let first : List Instruction := [.pushSmall 2, .newIntArray, .dup, .pushSmall 1, .pushByte 7,
      .arrayStore, .dup, .pushSmall 0, .pushByte 9, .arrayStore, .dup, .pushSmall 0, .pushShort 300,
      .arrayStore, .storeField (.intArray "R" "a")]
    let second : List Instruction := [.pushSmall 0, .newIntArray, .storeField (.intArray "R" "b")]
    ∃ m final, run (first ++ second ++ [.finish]) (.start .empty) = .ok 2 m ∧
      m.table.array? "a" = some [300, 7] ∧
      complete (first ++ second ++ [.finish]) .start = some final ∧
      final.assigned.map Prod.fst = [.intArray "R" "a", .intArray "R" "b"] := by
  intro first second
  have hends : endsIn (fun n m => decide (n = 2 ∧ m.table.array? "a" = some [300, 7]))
      (run (first ++ second ++ [.finish]) (.start .empty)) = true := by decide +kernel
  obtain ⟨n, m, hrun, htest⟩ := exists_of_endsIn hends
  obtain ⟨rfl, hvalues⟩ := of_decide_eq_true htest
  have hstores : ∀ visit ∈ visits (first ++ second ++ [.finish]) (.start .empty),
      visit.1.stored?.isSome → visit.2.stack = [.array] := by decide +kernel
  have hfields : (visits (first ++ second ++ [.finish]) (.start .empty)).filterMap
      (fun visit => visit.1.stored?) = [.intArray "R" "a", .intArray "R" "b"] := by decide +kernel
  obtain ⟨final, hcomplete, hassigned, -, -⟩ := replay_simulated (by simp [first, second]) hrun
    fun field before hbefore => hstores _ hbefore rfl
  exact ⟨m, final, hrun, hvalues, hcomplete, hassigned.trans hfields⟩

end VirtualMachine

end ResourceMerge

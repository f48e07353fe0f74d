import ResourceMerge.Proofs.ArrayReplay
import ResourceMerge.Proofs.Script

/-! Replaying the initialiser of a table among other code. Instructions that are not interpreted may
    stand anywhere in it, and the replay is that of the initialiser alone. The replay of an array
    ends in an offer of exactly its values to the table, whatever the table holds, so the replay of
    all of them is one offer after the other up to the first that the table refuses.

    Nothing is lost at this level: a push keeps the whole value that it was chosen for. -/

namespace ResourceMerge.Initializer

open MergedClass

/-! ### Instructions that are not interpreted -/

/-- The second stream is the first one with instructions put in that are not interpreted, any number
    of them in any places. -/
inductive Interspersed : List Instruction → List Instruction → Prop where
  | nil : Interspersed [] []
  | keep {insn : Instruction} {code stream : List Instruction} (h : Interspersed code stream) :
      Interspersed (insn :: code) (insn :: stream)
  | insert {opcode : UInt8} {code stream : List Instruction} (h : Interspersed code stream) :
      Interspersed code (.other opcode :: stream)

/-- No replay notices them. -/
theorem run_interspersed {code stream : List Instruction} (h : Interspersed code stream)
    (m : Machine) : run stream m = run code m := by
  induction h generalizing m with
  | nil => rfl
  | keep _ ih =>
    rw [run_step, run_step]
    split
    · exact ih _
    · rfl
    · rfl
  | insert _ ih => rw [run_moves .other, ih]

/-! ### Offers -/

/-- The push chosen for a value pushes it. -/
theorem push_pushes_value (v : Int32) : (Instruction.push v).Pushes v := by
  unfold Instruction.push
  split
  · exact .inl rfl
  split
  · exact .inr (.inl rfl)
  split
  · exact .inr (.inr (.inl rfl))
  · exact .inr (.inr (.inr rfl))

/-- The instructions that push the index and the value of an element. -/
def chosenPushes (element : Int32 × Nat) : Instruction × Instruction :=
  (.push (sizeOperand element.2), .push element.1)

theorem arrayInstructions_eq (owner : String) (entry : String × List Int32) :
    arrayInstructions owner entry = arrayCode (.push (sizeOperand entry.2.length))
      (entry.2.zipIdx.map chosenPushes) (.intArray owner entry.1) := by
  rw [arrayInstructions, arrayCode, List.flatMap_map]
  rfl

theorem push_sizeOperand_pushes {n : Nat} (h : n ≤ 2147483647) :
    (Instruction.push (sizeOperand n)).Pushes (.ofNat n) := by
  have hpushes := push_pushes_value (sizeOperand n)
  rwa [sizeOperand, if_pos h] at hpushes ⊢

theorem chosenPushes_push {values : List Int32} (h : values.length ≤ 2147483647) :
    List.Forall₂ PushesElement (values.zipIdx.map chosenPushes) values.zipIdx := by
  rw [List.forall₂_map_left_iff, List.forall₂_same]
  intro element helement
  have hindex := List.snd_lt_of_mem_zipIdx helement
  exact ⟨push_sizeOperand_pushes (by omega), push_pushes_value element.1⟩

/-- The store into a field offers an array of which everything is written. -/
theorem step_offers (field : FieldRef) (values : List Int32) (stack : List Slot)
    (table : SymbolTable) (committed : Nat) :
    step (.storeField field)
        ⟨stack, some ⟨values.length, writtenFrom 0 values ∅⟩, table, committed⟩
      = match SymbolTable.insertArray field.name values table with
        | .ok _ table' => .ok true ⟨[], none, table', committed + 1⟩
        | .error e table' => .error e ⟨stack, none, table', committed⟩ := by
  have hcontents : PendingArray.contents ⟨values.length, writtenFrom 0 values ∅⟩ = .ok values := by
    refine contents_eq_ok.2 ⟨rfl, fun i hi => ?_⟩
    have hwritten := getElem?_writtenFrom 0 ∅ hi
    rwa [Nat.zero_add] at hwritten
  simp only [step, Bind.bind, EStateM.bind, commit_some, hcontents, offerArray]
  cases SymbolTable.insertArray field.name values table with
  | ok _ table' => rfl
  | error e table' => rfl

/-- From an empty stack, the code of an array comes down to the offer of its values. -/
theorem run_array (owner : String) {entry : String × List Int32}
    (hlength : entry.2.length ≤ 2147483647) (rest : List Instruction) (table : SymbolTable)
    (committed : Nat) :
    run (arrayInstructions owner entry ++ rest) ⟨[], none, table, committed⟩
      = match SymbolTable.insertArray entry.1 entry.2 table with
        | .ok _ table' => run rest ⟨[], none, table', committed + 1⟩
        | .error e table' => .error e ⟨[.array], none, table', committed⟩ := by
  rw [arrayInstructions_eq, run_arrayCode hlength (push_sizeOperand_pushes hlength)
    (chosenPushes_push hlength), run_step, step_offers]
  simp only [FieldRef.intArray]
  cases SymbolTable.insertArray entry.1 entry.2 table with
  | ok _ table' => rfl
  | error e table' => rfl

/-- The code of several arrays offers one after the other. -/
theorem run_offers (owner : String) : ∀ (entries : List (String × List Int32)) (table : SymbolTable)
    (committed : Nat), (∀ entry ∈ entries, entry.2.length ≤ 2147483647) →
    tableEnding (run (entries.flatMap (arrayInstructions owner) ++ [.finish])
        ⟨[], none, table, committed⟩)
      = (do
          entries.forM fun entry => SymbolTable.insertArray entry.1 entry.2
          return committed + entries.length : SymbolTable.Update Nat) table
  | [], table, committed, _ => rfl
  | entry :: entries, table, committed, hlength => by
    obtain ⟨hfirst, hrest⟩ := List.forall_mem_cons.1 hlength
    rw [List.flatMap_cons, List.append_assoc, run_array owner hfirst]
    simp only [List.forM, bind_assoc]
    simp only [Bind.bind, EStateM.bind]
    cases SymbolTable.insertArray entry.1 entry.2 table with
    | error e table' => rfl
    | ok _ table' =>
      have hbehind := run_offers owner entries table' (committed + 1) hrest
      rw [Nat.add_right_comm, Nat.add_assoc] at hbehind
      exact hbehind

end ResourceMerge.Initializer

namespace ResourceMerge.Harvest

open Initializer MergedClass

variable {table : SymbolTable} {owner : String} {stream : List Instruction}

/-- Replayed into any table, the initialiser of a table ends as the insertion of its arrays one by
    one, whichever other instructions stand among its own: with as many arrays as the table has, or
    in the first conflict, and in both cases with the same table left behind. -/
theorem replay_interspersed
    (hlength : ∀ entry ∈ table.arrays.entries, entry.2.length ≤ 2147483647)
    (hstream : Interspersed (initializer table owner) stream) (start : SymbolTable) :
    replay stream start = (do
      table.arrays.entries.forM fun entry => SymbolTable.insertArray entry.1 entry.2
      return table.arrays.size : SymbolTable.Update Nat) start := by
  have hrun := run_offers owner table.arrays.entries start 0 hlength
  rw [Nat.zero_add] at hrun
  rw [replay_eq_run, run_interspersed hstream]
  exact hrun

/-- A value that does not fit a byte is kept, and the array behind it meets another one. -/
theorem replay_interspersed_sample :
    let table : SymbolTable := ⟨.empty, ⟨[("a", [-1000]), ("b", [])], by decide⟩⟩
    let start : SymbolTable := ⟨.empty, ⟨[("b", [1])], by decide⟩⟩
    let stream : List Instruction :=
      [.other 0x00, .push 1, .newIntArray, .dup, .push 0, .other 0xb8, .push (-1000), .arrayStore,
        .storeField (.intArray "R" "a"), .push 0, .newIntArray, .storeField (.intArray "R" "b"),
        .finish, .other 0x57]
    Interspersed (initializer table "R") stream ∧
      replay stream start = .error (.conflict "b" (.array [1]) (.array []))
        ⟨.empty, ⟨[("b", [1]), ("a", [-1000])], by decide⟩⟩ := by
  intro table start stream
  have hstream : Interspersed (initializer table "R") stream := by
    repeat constructor
  refine ⟨hstream, ?_⟩
  rw [replay_interspersed (by decide) hstream]
  rfl

end ResourceMerge.Harvest

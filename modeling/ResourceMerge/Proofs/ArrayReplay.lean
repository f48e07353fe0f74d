import ResourceMerge.Proofs.Joining
import ResourceMerge.Proofs.ReplaySteps

/-! Replaying code that builds arrays, whichever instructions push the numbers. Between two arrays
    the stack is empty and nothing is under construction. Within an array the reference lies alone
    on the stack between two elements, and the elements passed so far are written. At the end of an
    array it is offered to the table under the name of its field. -/

namespace ResourceMerge.Initializer

variable {rest : List Instruction} {insn : Instruction} {m m' : Machine} {stack : List Slot}
  {table table' : SymbolTable} {committed : Nat} {written : Std.TreeMap Nat Int32}

/-! ### One instruction -/

theorem run_cons (h : step insn m = .ok true m') : run (insn :: rest) m = run rest m' := by
  rw [run]
  simp only [Bind.bind, EStateM.bind, h, if_true]

theorem run_moves (h : Moves insn m m') : run (insn :: rest) m = run rest m' :=
  run_cons (step_eq_true.2 h)

/-! ### One array -/

/-- Writes one element of the array on top of the stack, given the instructions that push its index
    and its value. -/
def elementCode (pushes : Instruction × Instruction) : List Instruction :=
  [.dup, pushes.1, pushes.2, .arrayStore]

/-- Builds one array and puts it into its field, given the instruction that pushes its length. -/
def arrayCode (length : Instruction) (elements : List (Instruction × Instruction))
    (field : FieldRef) : List Instruction :=
  length :: .newIntArray :: (elements.flatMap elementCode ++ [.storeField field])

/-- The instructions push the index and the value of an element. -/
def PushesElement (pushes : Instruction × Instruction) (element : Int32 × Nat) : Prop :=
  pushes.1.Pushes (.ofNat element.2) ∧ pushes.2.Pushes element.1

/-- What is written after the values were stored from an index on. -/
def writtenFrom : (index : Nat) → List Int32 → Std.TreeMap Nat Int32 → Std.TreeMap Nat Int32
  | _, [], written => written
  | index, v :: values, written => writtenFrom (index + 1) values (written.insert index v)

/-- Indices that were not passed have what they had. -/
theorem getElem?_writtenFrom_of_lt : ∀ (values : List Int32) {index i : Nat}
    {written : Std.TreeMap Nat Int32}, i < index →
    (writtenFrom index values written)[i]? = written[i]?
  | [], _, _, _, _ => rfl
  | v :: values, index, i, written, h => by
    rw [writtenFrom, getElem?_writtenFrom_of_lt values (by omega), Std.TreeMap.getElem?_insert,
      if_neg (by simpa using by omega)]

/-- Indices that were passed have their values. -/
theorem getElem?_writtenFrom : ∀ {values : List Int32} (index : Nat) {i : Nat}
    (written : Std.TreeMap Nat Int32), i < values.length →
    (writtenFrom index values written)[index + i]? = values[i]?
  | v :: values, index, 0, written, _ => by
    rw [writtenFrom, getElem?_writtenFrom_of_lt values (by omega), Std.TreeMap.getElem?_insert]
    simp
  | v :: values, index, i + 1, written, h => by
    have hrest := getElem?_writtenFrom (index + 1) (written.insert index v)
      (Nat.lt_of_succ_lt_succ h)
    rwa [Nat.add_assoc, Nat.add_comm 1] at hrest

/-- The array is created, with nothing written. -/
theorem run_newArray {length : Instruction} {n : Nat} (h : length.Pushes (.ofNat n))
    (hn : n ≤ 2147483647) :
    run (length :: .newIntArray :: rest) ⟨[], none, table, committed⟩
      = run rest ⟨[.array], some ⟨n, ∅⟩, table, committed⟩ := by
  have hnat : (Int32.ofNat n).toInt = n := Int32.toInt_ofNat_of_lt (by omega)
  have hpositive : 0 ≤ Int32.ofNat n := by
    rw [Int32.le_iff_toInt_le, hnat]
    exact Int.natCast_nonneg n
  rw [run_moves (.push h), run_moves (.newArray hpositive), hnat, Int.toNat_natCast, PendingArray.new]

theorem run_element {pushes : Instruction × Instruction} {v : Int32} {index length : Nat}
    (h : PushesElement pushes (v, index)) (hindex : index < length) (hlength : length ≤ 2147483647) :
    run (elementCode pushes ++ rest) ⟨[.array], some ⟨length, written⟩, table, committed⟩
      = run rest ⟨[.array], some ⟨length, written.insert index v⟩, table, committed⟩ := by
  have hnat : (Int32.ofNat index).toInt = index := Int32.toInt_ofNat_of_lt (by omega)
  change run (.dup :: _ :: _ :: .arrayStore :: _) _ = _
  rw [run_moves .dup, run_moves (.push h.1), run_moves (.push h.2), run_moves (.store ?_ ?_), hnat]
  · rfl
  · rw [Int32.le_iff_toInt_le, hnat]
    exact Int.natCast_nonneg index
  · rw [hnat]
    exact hindex

/-- The elements from an index on are stored, one after the other. -/
theorem run_elements {length : Nat} (hlength : length ≤ 2147483647) :
    ∀ {elements : List (Instruction × Instruction)} {values : List Int32} {index : Nat}
      {written : Std.TreeMap Nat Int32},
      List.Forall₂ PushesElement elements (values.zipIdx index) → index + values.length ≤ length →
      run (elements.flatMap elementCode ++ rest)
          ⟨[.array], some ⟨length, written⟩, table, committed⟩
        = run rest ⟨[.array], some ⟨length, writtenFrom index values written⟩, table, committed⟩
  | _, [], _, _, .nil, _ => rfl
  | pushes :: elements, v :: values, index, written, .cons hfirst hrest, hfits => by
    rw [List.length_cons] at hfits
    rw [List.flatMap_cons, List.append_assoc, run_element hfirst (by omega) hlength,
      run_elements hlength hrest (by omega), writtenFrom]

/-- Up to the store into its field, the code writes the values at their indices. -/
theorem run_arrayCode {length : Instruction} {elements : List (Instruction × Instruction)}
    {field : FieldRef} {values : List Int32} (hlength : values.length ≤ 2147483647)
    (hpush : length.Pushes (.ofNat values.length))
    (helements : List.Forall₂ PushesElement elements values.zipIdx) :
    run (arrayCode length elements field ++ rest) ⟨[], none, table, committed⟩
      = run (.storeField field :: rest)
          ⟨[.array], some ⟨values.length, writtenFrom 0 values ∅⟩, table, committed⟩ := by
  rw [arrayCode, List.cons_append, List.cons_append, List.append_assoc,
    run_newArray hpush hlength, run_elements hlength helements (by simp)]
  rfl

/-- Replayed with an empty stack, the code offers the array to the table under its name. -/
def Builds (code : List Instruction) (entry : String × List Int32) : Prop :=
  ∀ rest table table' committed, SymbolTable.insertArray entry.1 entry.2 table = .ok () table' →
    run (code ++ rest) ⟨[], none, table, committed⟩ = run rest ⟨[], none, table', committed + 1⟩

theorem arrayCode_builds {length : Instruction} {elements : List (Instruction × Instruction)}
    {field : FieldRef} {values : List Int32} (hlength : values.length ≤ 2147483647)
    (hpush : length.Pushes (.ofNat values.length))
    (helements : List.Forall₂ PushesElement elements values.zipIdx) :
    Builds (arrayCode length elements field) (field.name, values) := by
  intro rest table table' committed hinsert
  rw [run_arrayCode hlength hpush helements]
  refine run_moves (.commit rfl (fun i hi => ?_) hinsert)
  have hwritten := getElem?_writtenFrom 0 ∅ hi
  rwa [Nat.zero_add] at hwritten

/-! ### Several arrays -/

/-- Arrays of distinct names, none of which the table holds, end up behind those it holds. -/
theorem run_builds : ∀ {codes : List (List Instruction)} {entries : List (String × List Int32)}
    (table : SymbolTable) (committed : Nat), List.Forall₂ Builds codes entries →
    (table.arrays.entries.map Prod.fst ++ entries.map Prod.fst).Nodup →
    ∃ table', table'.scalars = table.scalars ∧
      table'.arrays.entries = table.arrays.entries ++ entries ∧
      ∀ rest, run (codes.flatten ++ rest) ⟨[], none, table, committed⟩
        = run rest ⟨[], none, table', committed + entries.length⟩
  | _, [], table, committed, .nil, _ => ⟨table, rfl, by simp, fun _ => rfl⟩
  | code :: codes, entry :: entries, table, committed, .cons hfirst hrest, hdistinct => by
    have hfree := Registry.find?_next hdistinct
    have hinsert := SymbolTable.insertArray_fresh hfree entry.2
    let added : SymbolTable :=
      { table with arrays := table.arrays.add entry.1 entry.2 hfree }
    have hadded : added.arrays.entries = table.arrays.entries ++ [entry] := rfl
    obtain ⟨table', hscalars, harrays, hrun⟩ := run_builds added (committed + 1) hrest
      (by rw [hadded]; simpa using hdistinct)
    refine ⟨table', hscalars, by simp [harrays, hadded], fun rest => ?_⟩
    rw [List.flatten_cons, List.append_assoc, hfirst _ _ _ _ hinsert, hrun, List.length_cons]
    rw [Nat.add_assoc, Nat.add_comm 1]

end ResourceMerge.Initializer

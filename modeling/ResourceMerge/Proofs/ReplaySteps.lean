import ResourceMerge.Proofs.ArrayCode
import ResourceMerge.Initializer

/-! What an instruction of a replay does where it succeeds, all of it: which operands it finds, what
    it demands of the array under construction, and the state that it leaves. A replay is a
    sequence of such steps up to the one that leaves the body, or to the end. -/

namespace ResourceMerge.Initializer

variable {m m' : Machine} {u : Unit} {v : Int32} {role name : String}

/-- What stands behind a check that ends in a fault. -/
theorem guard_eq_ok {p : Prop} [Decidable p] {f : StreamFault} {x : Replay Unit} :
    (if p then (fault f : Replay Unit) >>= fun _ => x else x) m = .ok u m' ↔
      ¬p ∧ x m = .ok u m' := by
  by_cases hp : p
  · rw [if_pos hp]
    exact iff_of_false (fun h => by cases h) fun h => h.1 hp
  · rw [if_neg hp, and_iff_right hp]

theorem popInt_eq_ok : popInt role m = .ok v m' ↔
    ∃ rest, m.stack = .int v :: rest ∧ m' = { m with stack := rest } := by
  obtain ⟨stack, pending, table, committed⟩ := m
  constructor
  · intro h
    rcases stack with _ | ⟨w | _, rest⟩
    · cases h
    · cases h
      exact ⟨rest, rfl, rfl⟩
    · cases h
  · rintro ⟨rest, hstack, rfl⟩
    obtain rfl : stack = _ := hstack
    rfl

theorem newArray_eq_ok : newArray m = .ok u m' ↔ ∃ length rest, m.stack = .int length :: rest ∧
    0 ≤ length ∧ m.pending = none ∧
    m' = { m with stack := .array :: rest, pending := some (.new length.toInt.toNat) } := by
  rw [newArray, bind_eq_ok]
  constructor
  · rintro ⟨length, middle, hpop, h⟩
    obtain ⟨rest, hstack, rfl⟩ := popInt_eq_ok.1 hpop
    obtain ⟨hlength, h⟩ := guard_eq_ok.1 h
    obtain ⟨_, _, ⟨⟩, h⟩ := bind_eq_ok.1 h
    obtain ⟨hpending, h⟩ := guard_eq_ok.1 h
    cases h
    exact ⟨length, rest, hstack, Int32.not_lt.1 hlength, by simpa using hpending, rfl⟩
  · rintro ⟨length, rest, hstack, hlength, hpending, rfl⟩
    refine ⟨length, _, popInt_eq_ok.2 ⟨rest, hstack, rfl⟩, ?_⟩
    refine guard_eq_ok.2 ⟨Int32.not_lt.2 hlength, bind_eq_ok.2 ⟨_, _, rfl, ?_⟩⟩
    exact guard_eq_ok.2 ⟨by simp [hpending], rfl⟩

theorem duplicate_eq_ok : duplicate m = .ok u m' ↔
    ∃ top rest, m.stack = top :: rest ∧ m' = { m with stack := top :: top :: rest } := by
  obtain ⟨stack, pending, table, committed⟩ := m
  constructor
  · intro h
    rcases stack with _ | ⟨top, rest⟩
    · cases h
    · cases h
      exact ⟨top, rest, rfl, rfl⟩
  · rintro ⟨top, rest, hstack, rfl⟩
    obtain rfl : stack = _ := hstack
    rfl

theorem storeElement_eq_ok : storeElement m = .ok u m' ↔ ∃ array array' value index rest,
    m.pending = some array ∧ m.stack = .int value :: .int index :: .array :: rest ∧
    array.store index value = .ok array' ∧
    m' = { m with stack := rest, pending := some array' } := by
  obtain ⟨stack, pending, table, committed⟩ := m
  rw [storeElement, bind_eq_ok]
  constructor
  · rintro ⟨_, _, ⟨⟩, h⟩
    cases pending with
    | none => cases h
    | some array =>
      obtain ⟨value, _, hvalue, h⟩ := bind_eq_ok.1 h
      obtain ⟨behind, hstack, rfl⟩ := popInt_eq_ok.1 hvalue
      obtain ⟨index, _, hindex, h⟩ := bind_eq_ok.1 h
      obtain ⟨behind', hbehind, rfl⟩ := popInt_eq_ok.1 hindex
      obtain ⟨popped, _, hpop, h⟩ := bind_eq_ok.1 h
      obtain rfl : behind = _ := hbehind
      obtain rfl : stack = _ := hstack
      rcases behind' with _ | ⟨_ | _, rest⟩
      · cases hpop
        cases h
      · cases hpop
        cases h
      · cases hpop
        cases hstore : array.store index value with
        | error f =>
          simp only [hstore] at h
          cases h
        | ok array' =>
          simp only [hstore] at h
          cases h
          exact ⟨array, array', value, index, rest, rfl, rfl, hstore, rfl⟩
  · rintro ⟨array, array', value, index, rest, hpending, hstack, hstore, rfl⟩
    obtain rfl : pending = _ := hpending
    obtain rfl : stack = _ := hstack
    refine ⟨_, _, rfl, bind_eq_ok.2 ⟨value, _, rfl, bind_eq_ok.2 ⟨index, _, rfl, ?_⟩⟩⟩
    refine bind_eq_ok.2 ⟨some .array, _, rfl, ?_⟩
    simp only [hstore]
    rfl

theorem offerArray_eq_ok {values : List Int32} : offerArray name values m = .ok u m' ↔
    ∃ table, SymbolTable.insertArray name values m.table = .ok () table ∧
      m' = { m with table, stack := [], committed := m.committed + 1 } := by
  rw [offerArray]
  cases SymbolTable.insertArray name values m.table with
  | ok _ table =>
    constructor
    · rintro ⟨⟩
      exact ⟨table, rfl, rfl⟩
    · rintro ⟨_, ⟨⟩, rfl⟩
      rfl
  | error e table => simp

theorem commit_eq_ok : commit name m = .ok u m' ↔ ∃ array values table, m.pending = some array ∧
    array.contents = .ok values ∧ SymbolTable.insertArray name values m.table = .ok () table ∧
    m' = ⟨[], none, table, m.committed + 1⟩ := by
  obtain ⟨stack, pending, table, committed⟩ := m
  rw [commit, bind_eq_ok]
  constructor
  · rintro ⟨_, _, ⟨⟩, h⟩
    cases pending with
    | none => cases h
    | some array =>
      obtain ⟨_, _, ⟨⟩, h⟩ := bind_eq_ok.1 h
      cases hcontents : array.contents with
      | error index =>
        simp only [hcontents] at h
        cases h
      | ok values =>
        simp only [hcontents] at h
        obtain ⟨table', hinsert, rfl⟩ := offerArray_eq_ok.1 h
        exact ⟨array, values, table', rfl, hcontents, hinsert, rfl⟩
  · rintro ⟨array, values, table', hpending, hcontents, hinsert, rfl⟩
    obtain rfl : pending = _ := hpending
    refine ⟨_, _, rfl, bind_eq_ok.2 ⟨(), _, rfl, ?_⟩⟩
    simp only [hcontents]
    exact offerArray_eq_ok.2 ⟨table', hinsert, rfl⟩

/-! ### The array under construction -/

theorem store_eq_ok {array array' : PendingArray} {index value : Int32} :
    array.store index value = .ok array' ↔ 0 ≤ index ∧ index.toInt.toNat < array.length ∧
      array' = { array with written := array.written.insert index.toInt.toNat value } := by
  rw [PendingArray.store]
  split
  · rename_i hindex
    rw [Except.ok.injEq, and_iff_right hindex.1, and_iff_right hindex.2, eq_comm]
  · rename_i hindex
    exact iff_of_false nofun fun h => hindex ⟨h.1, h.2.1⟩

theorem valuesFrom_eq_ok {array : PendingArray} : ∀ {count index : Nat} {done values : List Int32},
    array.valuesFrom index done count = .ok values ↔ ∃ tail, values = done.reverse ++ tail ∧
      tail.length = count ∧ ∀ i < count, array.written[index + i]? = tail[i]?
  | 0, index, done, values => by
    rw [PendingArray.valuesFrom, Except.ok.injEq]
    constructor
    · rintro rfl
      exact ⟨[], by simp, rfl, by simp⟩
    · rintro ⟨tail, rfl, hlength, -⟩
      simp [List.length_eq_zero_iff.1 hlength]
  | count + 1, index, done, values => by
    rw [PendingArray.valuesFrom]
    cases hfirst : array.written[index]? with
    | none =>
      refine iff_of_false nofun ?_
      rintro ⟨tail, -, hlength, hvalues⟩
      have hzero := hvalues 0 (Nat.succ_pos count)
      rw [Nat.add_zero, hfirst, eq_comm, List.getElem?_eq_none_iff] at hzero
      omega
    | some value =>
      simp only [valuesFrom_eq_ok]
      constructor
      · rintro ⟨tail, rfl, rfl, hvalues⟩
        refine ⟨value :: tail, by simp, rfl, fun i hi => ?_⟩
        cases i with
        | zero => exact hfirst
        | succ i =>
          have hi' := hvalues i (by omega)
          rwa [Nat.add_right_comm, Nat.add_assoc] at hi'
      · rintro ⟨tail, rfl, hlength, hvalues⟩
        cases tail with
        | nil => cases hlength
        | cons first tail =>
          have hzero := hvalues 0 (Nat.succ_pos count)
          rw [Nat.add_zero, hfirst] at hzero
          cases hzero
          refine ⟨tail, by simp, Nat.succ.inj hlength, fun i hi => ?_⟩
          have hi' := hvalues (i + 1) (by omega)
          rwa [← Nat.add_assoc, Nat.add_right_comm] at hi'

theorem contents_eq_ok {array : PendingArray} {values : List Int32} :
    array.contents = .ok values ↔
      values.length = array.length ∧ ∀ i < array.length, array.written[i]? = values[i]? := by
  simp [PendingArray.contents, valuesFrom_eq_ok]

/-! ### Steps -/

/-- What an instruction that does not leave the body does. -/
inductive Moves : Instruction → Machine → Machine → Prop where
  | push {insn : Instruction} {v : Int32} {stack : List Slot} {pending : Option PendingArray}
      {table : SymbolTable} {committed : Nat} (hpush : insn.Pushes v) :
      Moves insn ⟨stack, pending, table, committed⟩ ⟨.int v :: stack, pending, table, committed⟩
  | newArray {length : Int32} {rest : List Slot} {table : SymbolTable} {committed : Nat}
      (hlength : 0 ≤ length) :
      Moves .newIntArray ⟨.int length :: rest, none, table, committed⟩
        ⟨.array :: rest, some (.new length.toInt.toNat), table, committed⟩
  | dup {top : Slot} {rest : List Slot} {pending : Option PendingArray} {table : SymbolTable}
      {committed : Nat} :
      Moves .dup ⟨top :: rest, pending, table, committed⟩
        ⟨top :: top :: rest, pending, table, committed⟩
  | store {value index : Int32} {rest : List Slot} {array : PendingArray} {table : SymbolTable}
      {committed : Nat} (hindex : 0 ≤ index) (hwithin : index.toInt.toNat < array.length) :
      Moves .arrayStore ⟨.int value :: .int index :: .array :: rest, some array, table, committed⟩
        ⟨rest, some { array with written := array.written.insert index.toInt.toNat value }, table,
          committed⟩
  | commit {field : FieldRef} {stack : List Slot} {array : PendingArray} {values : List Int32}
      {table table' : SymbolTable} {committed : Nat} (hlength : values.length = array.length)
      (hvalues : ∀ i < array.length, array.written[i]? = values[i]?)
      (hinsert : SymbolTable.insertArray field.name values table = .ok () table') :
      Moves (.storeField field) ⟨stack, some array, table, committed⟩
        ⟨[], none, table', committed + 1⟩
  | other {opcode : UInt8} {machine : Machine} : Moves (.other opcode) machine machine

/-- An instruction with a part of its own goes on behind it. -/
theorem goOn_eq_ok {x : Replay Unit} {goesOn : Bool} :
    (x >>= fun _ => pure true : Replay Bool) m = .ok goesOn m' ↔
      goesOn = true ∧ x m = .ok () m' := by
  rw [bind_eq_ok]
  constructor
  · rintro ⟨_, _, hx, ⟨⟩⟩
    exact ⟨rfl, hx⟩
  · rintro ⟨rfl, hx⟩
    exact ⟨(), m', hx, rfl⟩

theorem step_eq_true {insn : Instruction} : step insn m = .ok true m' ↔ Moves insn m m' := by
  constructor
  · intro h
    obtain ⟨stack, pending, table, committed⟩ := m
    cases insn with
    | pushSmall v | pushByte v | pushShort v | pushConstant v =>
      cases h
      exact .push (by simp [Instruction.Pushes])
    | newIntArray =>
      obtain ⟨length, rest, hstack, hlength, hpending, rfl⟩ :=
        newArray_eq_ok.1 (goOn_eq_ok.1 h).2
      obtain rfl : stack = _ := hstack
      obtain rfl : pending = _ := hpending
      exact .newArray hlength
    | dup =>
      obtain ⟨top, rest, hstack, rfl⟩ := duplicate_eq_ok.1 (goOn_eq_ok.1 h).2
      obtain rfl : stack = _ := hstack
      exact .dup
    | arrayStore =>
      obtain ⟨array, array', value, index, rest, hpending, hstack, hstore, rfl⟩ :=
        storeElement_eq_ok.1 (goOn_eq_ok.1 h).2
      obtain rfl : stack = _ := hstack
      obtain rfl : pending = _ := hpending
      obtain ⟨hindex, hwithin, rfl⟩ := store_eq_ok.1 hstore
      exact .store hindex hwithin
    | storeField field =>
      obtain ⟨array, values, table', hpending, hcontents, hinsert, rfl⟩ :=
        commit_eq_ok.1 (goOn_eq_ok.1 h).2
      obtain rfl : pending = _ := hpending
      obtain ⟨hlength, hvalues⟩ := contents_eq_ok.1 hcontents
      exact .commit hlength hvalues hinsert
    | finish => cases h
    | other opcode =>
      cases h
      exact .other
  · intro h
    cases h with
    | push hpush => rcases hpush with rfl | rfl | rfl | rfl <;> rfl
    | newArray hlength =>
      exact goOn_eq_ok.2 ⟨rfl, newArray_eq_ok.2 ⟨_, _, rfl, hlength, rfl, rfl⟩⟩
    | dup => rfl
    | store hindex hwithin =>
      exact goOn_eq_ok.2 ⟨rfl, storeElement_eq_ok.2
        ⟨_, _, _, _, _, rfl, rfl, store_eq_ok.2 ⟨hindex, hwithin, rfl⟩, rfl⟩⟩
    | commit hlength hvalues hinsert =>
      exact goOn_eq_ok.2 ⟨rfl, commit_eq_ok.2
        ⟨_, _, _, rfl, contents_eq_ok.2 ⟨hlength, hvalues⟩, hinsert, rfl⟩⟩
    | other => rfl

/-- Only the end of a body leaves it. -/
theorem step_eq_false {insn : Instruction} :
    step insn m = .ok false m' ↔ insn = .finish ∧ m' = m := by
  cases insn with
  | finish => simp [step, pure, EStateM.pure, eq_comm]
  | other opcode => simp [step, pure, EStateM.pure]
  | _ => exact iff_of_false (fun h => Bool.noConfusion (goOn_eq_ok.1 h).1) (by simp)

/-! ### Runs -/

/-- A run is a step and a run of what follows, or the end of the body. -/
theorem run_cons_eq_ok {insn : Instruction} {rest : List Instruction} {n : Nat} :
    run (insn :: rest) m = .ok n m' ↔
      (∃ middle, Moves insn m middle ∧ run rest middle = .ok n m') ∨
        insn = .finish ∧ n = m.committed ∧ m' = m := by
  rw [run, bind_eq_ok]
  constructor
  · rintro ⟨goesOn, middle, hstep, h⟩
    cases goesOn with
    | true => exact .inl ⟨middle, step_eq_true.1 hstep, h⟩
    | false =>
      obtain ⟨rfl, rfl⟩ := step_eq_false.1 hstep
      cases h
      exact .inr ⟨rfl, rfl, rfl⟩
  · rintro (⟨middle, hmoves, h⟩ | ⟨rfl, rfl, rfl⟩)
    · exact ⟨true, middle, step_eq_true.2 hmoves, h⟩
    · exact ⟨false, _, rfl, rfl⟩

end ResourceMerge.Initializer

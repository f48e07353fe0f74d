import ResourceMerge.Proofs.Insertion
import ResourceMerge.Proofs.ReplaySteps
import ResourceMerge.Proofs.Script

/-! Stepping on after errors. A step that fails keeps the state that it had reached: operands may have
    been popped, the array under construction given up, and references be left over that stand for
    an array which is no longer there. Whoever goes on stepping does so on that state. The table is
    safe all the same, and an array that gets into it is what was written since its creation: each
    of its elements was written, and is the last value written there. The invariant ties the array
    under construction to the steps tried so far, the failed ones included. -/

namespace ResourceMerge.SymbolTable

/-- The arrays of a table are there in a later one, at their places and with their values; the
    scalars are the same. -/
structure Grows (t u : SymbolTable) : Prop where
  scalars : u.scalars = t.scalars
  arrays : t.arrays.entries <+: u.arrays.entries

theorem Grows.refl (t : SymbolTable) : Grows t t := ⟨rfl, List.prefix_rfl⟩

theorem Grows.trans {t u v : SymbolTable} (h : Grows t u) (h' : Grows u v) : Grows t v :=
  ⟨h'.scalars.trans h.scalars, h.arrays.trans h'.arrays⟩

theorem grows_of_insertArray {name : String} {values : List Int32} {t u : SymbolTable}
    (h : insertArray name values t = .ok () u) : Grows t u := by
  rcases arrays_isPart.insert_cases h with ⟨-, rfl⟩ | ⟨-, hentries⟩
  · exact .refl _
  · obtain ⟨r, -, rfl⟩ := (arrays_isPart.insert_eq_ok name values t u).1 h
    exact ⟨rfl, hentries ▸ List.prefix_append _ _⟩

end ResourceMerge.SymbolTable

namespace ResourceMerge.Initializer

open SymbolTable (Grows)

/-- A step, and the machine on which it is tried. -/
structure Attempt where
  insn : Instruction
  found : Machine

namespace Attempt

/-- The machine that the step leaves, also where it fails. -/
def leaves (a : Attempt) : Machine :=
  match step a.insn a.found with
  | .ok _ next | .error _ next => next

/-- Does the step succeed? -/
def succeeds (a : Attempt) : Bool := endsIn (fun _ _ => true) (step a.insn a.found)

/-- The length that the step pops and creates an array of. -/
def creates? (a : Attempt) : Option Int32 :=
  match a.insn, a.found.stack with
  | .newIntArray, .int length :: _ => if a.succeeds then some length else none
  | _, _ => none

/-- The index at which the step writes, and the value. -/
def writes? (a : Attempt) : Option (Nat × Int32) :=
  match a.insn, a.found.stack with
  | .arrayStore, .int value :: .int index :: _ =>
    if a.succeeds then some (index.toInt.toNat, value) else none
  | _, _ => none

/-- The step neither creates an array nor puts one into a field. -/
def Continues (a : Attempt) : Prop := a.creates? = none ∧ ∀ field, a.insn ≠ .storeField field

end Attempt

/-- The steps tried one after the other, each on what the one before it leaves. -/
def attempts : List Instruction → Machine → List Attempt
  | [], _ => []
  | insn :: rest, m => ⟨insn, m⟩ :: attempts rest (Attempt.mk insn m).leaves

/-- The machine that steps lead to, whichever of them fail. -/
def afterAll (insns : List Instruction) (m : Machine) : Machine :=
  insns.foldl (fun m insn => (Attempt.mk insn m).leaves) m

theorem afterAll_append (insns more : List Instruction) (m : Machine) :
    afterAll (insns ++ more) m = afterAll more (afterAll insns m) :=
  List.foldl_append

/-- The value that was written last at an index. -/
def lastWrite? (tried : List Attempt) (index : Nat) : Option Int32 :=
  (tried.reverse.filterMap Attempt.writes?).lookup index

theorem lastWrite?_concat (tried : List Attempt) (a : Attempt) (index : Nat) :
    lastWrite? (tried ++ [a]) index = match a.writes? with
      | none => lastWrite? tried index
      | some (written, value) => if index = written then some value else lastWrite? tried index := by
  rw [lastWrite?, List.reverse_concat, List.filterMap_cons]
  cases a.writes? with
  | none => rfl
  | some write =>
    obtain ⟨written, value⟩ := write
    by_cases hindex : index = written
    · simp [hindex]
    · simp [List.lookup_cons, beq_false_of_ne hindex, hindex, lastWrite?]

/-! ### What a failed step leaves -/

variable {m next : Machine} {insn : Instruction} {e : Error}

/-- What fails keeps the array under construction. -/
def KeepsArray {α : Type} (x : Replay α) : Prop :=
  ∀ m, Ends x m (fun _ _ => True) fun _ next => next.pending = m.pending

theorem popInt_ends (role : String) (m : Machine) :
    Ends (popInt role) m (fun _ next => next.pending = m.pending)
      fun _ next => next.pending = m.pending := by
  obtain ⟨_ | ⟨_ | _, _⟩, _, _, _⟩ := m <;> rfl

theorem newArray_keepsArray : KeepsArray newArray := by
  intro m
  refine (popInt_ends "newarray" m).andThen (fun length middle hmiddle => ?_) fun _ _ h => h
  have hfree : Ends (do
      if (← get).pending.isSome then fault .arrayPending
      modify fun m => { m with pending := some (.new length.toInt.toNat) }
      push .array : Replay Unit) middle (fun _ _ => True) fun _ next => next.pending = m.pending := by
    change Ends (if middle.pending.isSome then _ else _) middle _ _
    split
    · exact .bind (.throw hmiddle)
    · trivial
  split
  · exact .bind (.throw hmiddle)
  · exact hfree

theorem duplicate_keepsArray : KeepsArray duplicate := by
  rintro ⟨_ | ⟨_, _⟩, _, _, _⟩
  · rfl
  · trivial

theorem storeElement_keepsArray : KeepsArray storeElement := by
  rintro ⟨stack, _ | array, table, committed⟩
  · rfl
  · refine (popInt_ends _ _).andThen (fun value middle hvalue => ?_) fun _ _ h => h
    refine (popInt_ends _ _).andThen (fun index behind hindex => ?_) fun _ _ h => h.trans hvalue
    have hpending := hindex.trans hvalue
    obtain ⟨_ | ⟨_ | _, rest⟩, _, _, _⟩ := behind
    · exact hpending
    · exact hpending
    · unfold Ends
      cases hstore : array.store index value with
      | ok array' => trivial
      | error e => exact hpending

theorem step_keepsArray : ∀ {insn : Instruction}, (∀ field, insn ≠ .storeField field) →
    KeepsArray (step insn)
  | .pushSmall _, _ | .pushByte _, _ | .pushShort _, _ | .pushConstant _, _ => fun _ => trivial
  | .newIntArray, _ =>
    fun m => (newArray_keepsArray m).andThen (fun _ _ _ => trivial) fun _ _ h => h
  | .dup, _ => fun m => (duplicate_keepsArray m).andThen (fun _ _ _ => trivial) fun _ _ h => h
  | .arrayStore, _ =>
    fun m => (storeElement_keepsArray m).andThen (fun _ _ _ => trivial) fun _ _ h => h
  | .storeField field, h => absurd rfl (h field)
  | .finish, _ | .other _, _ => fun _ => trivial

/-- A store into a field that fails gives up the array under construction, and nothing else. -/
theorem storeField_fails {field : FieldRef} (h : step (.storeField field) m = .error e next) :
    next = { m with pending := none } := by
  rcases step_storeField field m with ⟨e', he⟩ | ⟨values, hvalues⟩
  · have hself : step (.storeField field) m = _ := he m.table m.committed
    rw [h] at hself
    cases hself
    rfl
  · have hself : step (.storeField field) m = _ := hvalues m.table m.committed
    rw [h] at hself
    cases hinsert : SymbolTable.insertArray field.name values m.table with
    | ok _ table =>
      simp only [hinsert] at hself
      cases hself
    | error e' table =>
      simp only [hinsert] at hself
      cases hself
      rw [SymbolTable.table_of_insertArray hinsert]

/-- A step that fails leaves the table as it was. -/
theorem table_of_step_error (h : step insn m = .error e next) : next.table = m.table := by
  by_cases hfield : ∃ field, insn = .storeField field
  · obtain ⟨field, rfl⟩ := hfield
    rw [storeField_fails h]
  · exact ((step_plain fun field heq => hfield ⟨field, heq⟩).framed.ends m).of_error h |>.1

/-! ### The table -/

theorem leaves_grows (a : Attempt) : Grows a.found.table a.leaves.table := by
  obtain ⟨insn, m⟩ := a
  unfold Attempt.leaves
  cases hstep : step insn m with
  | error e next => exact (table_of_step_error hstep) ▸ .refl _
  | ok goesOn next =>
    cases goesOn with
    | false =>
      obtain ⟨-, rfl⟩ := step_eq_false.1 hstep
      exact .refl _
    | true =>
      cases step_eq_true.1 hstep with
      | commit _ _ hinsert => exact SymbolTable.grows_of_insertArray hinsert
      | _ => exact .refl _

theorem afterAll_grows : ∀ (insns : List Instruction) (m : Machine),
    Grows m.table (afterAll insns m).table
  | [], m => .refl m.table
  | insn :: rest, m => (leaves_grows ⟨insn, m⟩).trans (afterAll_grows rest _)

/-! ### The array under construction -/

/-- What a step, failed or not, does to the array under construction. -/
inductive Touches (a : Attempt) : Option PendingArray → Option PendingArray → Prop where
  | keep {pending : Option PendingArray} (hcontinues : a.Continues) (hwrites : a.writes? = none) :
      Touches a pending pending
  | write {array : PendingArray} {index : Nat} {value : Int32} (hcontinues : a.Continues)
      (hwrites : a.writes? = some (index, value)) :
      Touches a (some array) (some { array with written := array.written.insert index value })
  | create {length : Int32} (hcreates : a.creates? = some length) (hlength : 0 ≤ length) :
      Touches a none (some (.new length.toInt.toNat))
  | drop {pending : Option PendingArray} {field : FieldRef} (hinsn : a.insn = .storeField field) :
      Touches a pending none

theorem touches (a : Attempt) : Touches a a.found.pending a.leaves.pending := by
  obtain ⟨insn, m⟩ := a
  cases hstep : step insn m with
  | error e next =>
    have hleaves : (Attempt.mk insn m).leaves = next := by rw [Attempt.leaves, hstep]
    have hfails : (Attempt.mk insn m).succeeds = false := by rw [Attempt.succeeds, hstep, endsIn]
    rw [hleaves]
    by_cases hfield : ∃ field, insn = .storeField field
    · obtain ⟨field, rfl⟩ := hfield
      rw [storeField_fails hstep]
      exact .drop rfl
    · have hother : ∀ field, insn ≠ .storeField field := fun field heq => hfield ⟨field, heq⟩
      rw [(step_keepsArray hother m).of_error hstep]
      refine .keep ⟨?_, hother⟩ ?_
      · simp only [Attempt.creates?, hfails]
        split <;> rfl
      · simp only [Attempt.writes?, hfails]
        split <;> rfl
  | ok goesOn next =>
    have hleaves : (Attempt.mk insn m).leaves = next := by rw [Attempt.leaves, hstep]
    have hsucceeds : (Attempt.mk insn m).succeeds = true := by rw [Attempt.succeeds, hstep, endsIn]
    rw [hleaves]
    cases goesOn with
    | false =>
      obtain ⟨rfl, rfl⟩ := step_eq_false.1 hstep
      exact .keep ⟨rfl, nofun⟩ rfl
    | true =>
      cases step_eq_true.1 hstep with
      | push hpush => rcases hpush with rfl | rfl | rfl | rfl <;> exact .keep ⟨rfl, nofun⟩ rfl
      | newArray hlength =>
        refine .create ?_ hlength
        simp only [Attempt.creates?, hsucceeds, if_true]
      | dup => exact .keep ⟨rfl, nofun⟩ rfl
      | store hindex hwithin =>
        refine .write ⟨rfl, nofun⟩ ?_
        simp only [Attempt.writes?, hsucceeds, if_true]
      | commit => exact .drop rfl
      | other => exact .keep ⟨rfl, nofun⟩ rfl

/-- Behind the last step that created an array, of that length, come these; none of them ended its
    construction. -/
structure SinceCreation (tried since : List Attempt) (length : Int32) : Prop where
  creation : ∃ earlier a, tried = earlier ++ a :: since ∧ a.creates? = some length
  continues : ∀ a ∈ since, a.Continues

theorem SinceCreation.concat {tried since : List Attempt} {length : Int32} {a : Attempt}
    (h : SinceCreation tried since length) (ha : a.Continues) :
    SinceCreation (tried ++ [a]) (since ++ [a]) length := by
  obtain ⟨earlier, creation, rfl, hcreates⟩ := h.creation
  refine ⟨⟨earlier, creation, by simp, hcreates⟩, fun b hb => ?_⟩
  rcases List.mem_append.1 hb with hb | hb
  · exact h.continues b hb
  · rwa [List.mem_singleton.1 hb]

/-- The array is what the steps since its creation have written. -/
structure Written (tried : List Attempt) (array : PendingArray) (since : List Attempt)
    (length : Int32) : Prop where
  creation : SinceCreation tried since length
  length : (array.length : Int) = length.toInt
  written : ∀ index, array.written[index]? = lastWrite? since index

/-- Every array under construction is what was written since its creation. -/
def Accounted (tried : List Attempt) (pending : Option PendingArray) : Prop :=
  ∀ array, pending = some array → ∃ since length, Written tried array since length

/-- One more step, failed or not. -/
theorem Accounted.concat {tried : List Attempt} {a : Attempt}
    {pending pending' : Option PendingArray} (h : Accounted tried pending)
    (ha : Touches a pending pending') : Accounted (tried ++ [a]) pending' := by
  intro array' hpending'
  cases ha with
  | keep hcontinues hwrites =>
    obtain ⟨since, length, hcreation, hlength, hwritten⟩ := h array' hpending'
    refine ⟨since ++ [a], length, hcreation.concat hcontinues, hlength, fun index => ?_⟩
    rw [lastWrite?_concat, hwrites]
    exact hwritten index
  | @write array written value hcontinues hwrites =>
    cases hpending'
    obtain ⟨since, length, hcreation, hlength, hwritten⟩ := h array rfl
    refine ⟨since ++ [a], length, hcreation.concat hcontinues, hlength, fun index => ?_⟩
    rw [lastWrite?_concat, hwrites, ← hwritten index]
    simp [Std.TreeMap.getElem?_insert, eq_comm (a := index)]
  | @create length hcreates hlength =>
    cases hpending'
    refine ⟨[], length, ⟨⟨tried, a, rfl, hcreates⟩, by simp⟩, ?_, fun index => ?_⟩
    · exact Int.toNat_of_nonneg (Int32.le_iff_toInt_le.1 hlength)
    · simp [PendingArray.new, lastWrite?]
  | drop => cases hpending'

/-- All steps. -/
theorem Accounted.run : ∀ (insns : List Instruction) {tried : List Attempt} {m : Machine},
    Accounted tried m.pending → Accounted (tried ++ attempts insns m) (afterAll insns m).pending
  | [], tried, m, h => by
    rw [attempts, List.append_nil]
    exact h
  | insn :: rest, tried, m, h => by
    have hrest := (h.concat (touches ⟨insn, m⟩)).run rest
    rwa [List.append_assoc] at hrest

/-! ### Any steps -/

/-- Steps on any table, whichever of them fail. A step that fails leaves the table as it is. All
    the time scalars stay the same, and arrays stay at their places with their values. An array
    that a store into a field adds or confirms has the length with which it was created, and each
    element was written since then and is the last value written there. A write that is out of
    bounds fails, and the array under construction stays what it is. -/
theorem steps_commit_last_writes {table : SymbolTable} {insns : List Instruction} {m : Machine}
    (hm : afterAll insns (.start table) = m) :
    (∀ insn e next, step insn m = .error e next → next.table = m.table) ∧
    (∀ earlier more, insns = earlier ++ more →
      Grows (afterAll earlier (.start table)).table m.table) ∧
    (∀ field goesOn next, step (.storeField field) m = .ok goesOn next →
      ∃ values since length, SinceCreation (attempts insns (.start table)) since length ∧
        (next.table = m.table ∨
          next.table.arrays.entries = m.table.arrays.entries ++ [(field.name, values)]) ∧
        next.table.array? field.name = some values ∧ (values.length : Int) = length.toInt ∧
        ∀ i < values.length, ∃ value, lastWrite? since i = some value ∧ values[i]? = some value) ∧
    ∀ array value index rest, m.pending = some array →
      m.stack = .int value :: .int index :: rest →
      (index < 0 ∨ (array.length : Int) ≤ index.toInt) →
      ∃ e next, step .arrayStore m = .error e next ∧ next.pending = m.pending := by
  subst hm
  refine ⟨fun insn e next h => table_of_step_error h, ?_, ?_, ?_⟩
  · rintro earlier more rfl
    rw [afterAll_append]
    exact afterAll_grows more _
  · intro field goesOn next h
    have hstart : Accounted [] (Machine.start table).pending := nofun
    have haccounted : Accounted (attempts insns (.start table)) _ := hstart.run insns
    obtain ⟨array, values, table', hpending, hcontents, hinsert, rfl⟩ :=
      commit_eq_ok.1 (goOn_eq_ok.1 h).2
    obtain ⟨since, length, hcreation, hlength, hwritten⟩ := haccounted array hpending
    obtain ⟨hcount, hvalues⟩ := contents_eq_ok.1 hcontents
    refine ⟨values, since, length, hcreation, ?_, ?_, by rw [hcount, hlength], fun i hi => ?_⟩
    · rcases SymbolTable.arrays_isPart.insert_cases hinsert with ⟨-, hsame⟩ | ⟨-, hentries⟩
      · exact .inl hsame
      · exact .inr hentries
    · exact (SymbolTable.arrays_isPart.find?_of_insert hinsert field.name values).2 (.inr ⟨rfl, rfl⟩)
    · have hi' := hvalues i (hcount ▸ hi)
      rw [List.getElem?_eq_getElem hi] at hi' ⊢
      exact ⟨values[i], by rw [← hwritten i, hi'], rfl⟩
  · intro array value index rest hpending hstack hindex
    have hother : ∀ field, Instruction.arrayStore ≠ .storeField field := nofun
    cases hstep : step .arrayStore (afterAll insns (.start table)) with
    | error e next => exact ⟨e, next, rfl, (step_keepsArray hother _).of_error hstep⟩
    | ok goesOn next =>
      obtain ⟨array', _, value', index', rest', hpending', hstack', hstore, -⟩ :=
        storeElement_eq_ok.1 (goOn_eq_ok.1 hstep).2
      cases hpending.symm.trans hpending'
      cases hstack.symm.trans hstack'
      obtain ⟨hnonneg, hwithin, -⟩ := store_eq_ok.1 hstore
      rcases hindex with hneg | hbeyond
      · exact absurd hnonneg (Int32.not_le.2 hneg)
      · omega

/-- A table, a field, and steps that fill an array for it. They begin with a store into a field that
    fails, write beyond the end of the array and try to create another one in between, and write one
    element twice. -/
def sampleSteps : SymbolTable × FieldRef × List Instruction :=
  let field : FieldRef := ⟨"R$styleable", "a", "[I"⟩
  (⟨.empty, ⟨[("held", [6, 9])], by decide⟩⟩, field,
    [.storeField field, .pushSmall 2, .newIntArray, .dup, .pushSmall 0, .pushSmall 5, .arrayStore,
      .dup, .pushSmall 2, .pushSmall 1, .arrayStore, .pushSmall 3, .newIntArray,
      .dup, .pushSmall 0, .pushSmall 4, .arrayStore,
      .dup, .pushSmall 1, .pushShort 300, .arrayStore])

theorem steps_commit_last_writes_sample : ∃ table field insns m next since length,
    (table, field, insns) = sampleSteps ∧ afterAll insns (.start table) = m ∧
      Grows table m.table ∧ step (.storeField field) m = .ok true next ∧
      SinceCreation (attempts insns (.start table)) since length ∧ length = 2 ∧
      next.table.array? field.name = some [4, 300] ∧
      lastWrite? since 0 = some 4 ∧ lastWrite? since 1 = some 300 := by
  have hends : endsIn (fun goesOn (next : Machine) =>
      goesOn = true ∧ next.table.array? sampleSteps.2.1.name = some [4, 300])
      (step (.storeField sampleSteps.2.1) (afterAll sampleSteps.2.2 (.start sampleSteps.1)))
        = true := by
    decide +kernel
  obtain ⟨goesOn, next, hstep, htests⟩ := exists_of_endsIn hends
  obtain ⟨rfl, harray⟩ := of_decide_eq_true htests
  obtain ⟨-, hgrows, hcommit, -⟩ :=
    steps_commit_last_writes (rfl : afterAll sampleSteps.2.2 (.start sampleSteps.1) = _)
  obtain ⟨values, since, length, hcreation, -, hfound, hlength, hwritten⟩ := hcommit _ _ _ hstep
  obtain rfl : values = [4, 300] := Option.some.inj (hfound.symm.trans harray)
  have hgrown : Grows sampleSteps.1 _ := hgrows [] _ rfl
  have htwo : length = 2 := Int32.toInt_inj.1 hlength.symm
  obtain ⟨_, hfirst, ⟨⟩⟩ := hwritten 0 (by decide)
  obtain ⟨_, hsecond, ⟨⟩⟩ := hwritten 1 (by decide)
  exact ⟨_, _, _, _, next, since, length, rfl, rfl, hgrown, hstep, hcreation, htwo, harray, hfirst,
    hsecond⟩

end ResourceMerge.Initializer

import ResourceMerge.Harvest
import ResourceMerge.Proofs.Joining

/-! What a replay does to a table, told without the table. A stream of instructions has a script:
    the arrays that it offers one after the other, and the fault in which it ends, if it does not
    end well. No instruction looks at the table, and only the store into a field changes it, by one
    offer. So a replay into any table carries out the script of its stream, up to the first offer
    that the table refuses. -/

namespace ResourceMerge.Initializer

variable {α β : Type} {x : Replay α} {f : α → Replay β}

/-- The machine with another table and another count of arrays. -/
def Machine.on (m : Machine) (table : SymbolTable) (committed : Nat) : Machine :=
  { m with table, committed }

/-- The same ending on another machine. -/
def mapMachine (g : Machine → Machine) :
    EStateM.Result Error Machine α → EStateM.Result Error Machine α
  | .ok a m => .ok a (g m)
  | .error e m => .error e (g m)

/-! ### Pieces that have nothing to do with the table -/

/-- A piece of a replay that neither looks at the table and the count nor changes them. -/
def Framed (x : Replay α) : Prop :=
  ∀ m table committed, x (m.on table committed) = mapMachine (·.on table committed) (x m)

namespace Framed

theorem pure (a : α) : Framed (pure a : Replay α) := fun _ _ _ => rfl

theorem fault (f : StreamFault) : Framed (fault f : Replay α) := fun _ _ _ => rfl

theorem push (slot : Slot) : Framed (push slot) := fun _ _ _ => rfl

theorem pop? : Framed pop? := by
  rintro ⟨_ | ⟨slot, stack⟩, pending, _, _⟩ table committed
  · rfl
  · rfl

theorem bind (hx : Framed x) (hf : ∀ a, Framed (f a)) : Framed (x >>= f) := by
  intro m table committed
  simp only [Bind.bind, EStateM.bind, hx m table committed]
  cases x m with
  | ok a next => exact hf a next table committed
  | error e next => rfl

/-- A look at the machine does no harm if what follows does not use the table and the count. -/
theorem look {f : Machine → Replay α} (hf : ∀ m, Framed (f m))
    (hsame : ∀ m table committed, f (m.on table committed) = f m) : Framed (get >>= f) := by
  intro m table committed
  change f (m.on table committed) (m.on table committed) = _
  rw [hsame]
  exact hf m m table committed

theorem update {g : Machine → Machine}
    (hg : ∀ m table committed, g (m.on table committed) = (g m).on table committed) :
    Framed (modify g : Replay PUnit) := by
  intro m table committed
  change EStateM.Result.ok _ (g (m.on table committed)) = _
  rw [hg]
  rfl

/-- Whatever such a piece ends in, table and count are what they were. -/
theorem ends (hx : Framed x) (m : Machine) :
    Ends x m (fun _ next => next.table = m.table ∧ next.committed = m.committed)
      (fun _ next => next.table = m.table ∧ next.committed = m.committed) := by
  have hself : x m = mapMachine (·.on m.table m.committed) (x m) := hx m m.table m.committed
  unfold Ends
  cases hm : x m with
  | ok a next =>
    rw [hm] at hself
    have hnext : next = next.on m.table m.committed := (EStateM.Result.ok.inj hself).2
    rw [hnext]
    exact ⟨rfl, rfl⟩
  | error e next =>
    rw [hm] at hself
    have hnext : next = next.on m.table m.committed := (EStateM.Result.error.inj hself).2
    rw [hnext]
    exact ⟨rfl, rfl⟩

end Framed

/-- A piece of a replay that is put together without the table: of pushes, pops and faults, and of
    looks at the machine and changes to it that leave the table and the count alone. -/
inductive Plain : {α : Type} → Replay α → Prop where
  | pure {α : Type} (a : α) : Plain (pure a : Replay α)
  | fault {α : Type} (f : StreamFault) : Plain (fault f : Replay α)
  | push (slot : Slot) : Plain (push slot)
  | pop? : Plain pop?
  | bind {α β : Type} {x : Replay α} {f : α → Replay β} (hx : Plain x) (hf : ∀ a, Plain (f a)) :
      Plain (x >>= f)
  | look {α : Type} {f : Machine → Replay α} (hf : ∀ m, Plain (f m))
      (hsame : ∀ m table committed, f (m.on table committed) = f m) : Plain (get >>= f)
  | update {g : Machine → Machine}
      (hg : ∀ m table committed, g (m.on table committed) = (g m).on table committed) :
      Plain (modify g : Replay PUnit)

namespace Plain

theorem popInt (role : String) : Plain (popInt role) := by
  refine pop?.bind fun slot? => ?_
  match slot? with
  | some (.int value) => exact .pure value
  | some .array => exact .fault _
  | none => exact .fault _

theorem newArray : Plain newArray := by
  refine (popInt _).bind fun length => ?_
  let create (m : Machine) : Machine := { m with pending := some (.new length.toInt.toNat) }
  have hcreate := (update (g := create) fun _ _ _ => rfl).bind fun _ => push .array
  have hfree : Plain (do
      if (← get).pending.isSome then Initializer.fault .arrayPending
      modify create
      Initializer.push .array) := by
    refine look (fun m => ?_) fun _ _ _ => rfl
    split
    · exact (fault _).bind fun _ => hcreate
    · exact hcreate
  split
  · exact (fault _).bind fun _ => hfree
  · exact hfree

theorem duplicate : Plain duplicate := by
  refine look (fun m => ?_) fun _ _ _ => rfl
  split
  · exact fault _
  · exact push _

theorem storeElement : Plain storeElement := by
  refine look (fun m => ?_) fun _ _ _ => rfl
  split
  · exact fault _
  · refine (popInt _).bind fun value => (popInt _).bind fun index => pop?.bind fun target => ?_
    split
    · split
      · exact update fun _ _ _ => rfl
      · exact fault _
    · exact fault _
    · exact fault _

/-- Such a piece has nothing to do with the table. -/
theorem framed (h : Plain x) : Framed x := by
  induction h with
  | pure a => exact .pure a
  | fault f => exact .fault f
  | push slot => exact .push slot
  | pop? => exact .pop?
  | bind _ _ hx hf => exact hx.bind hf
  | look _ hsame hf => exact .look hf hsame
  | update hg => exact .update hg

end Plain

/-- Of all instructions, only a store into a field has to do with the table. -/
theorem step_plain : ∀ {insn : Instruction}, (∀ field, insn ≠ .storeField field) →
    Plain (step insn)
  | .pushSmall _, _ | .pushByte _, _ | .pushShort _, _ | .pushConstant _, _ =>
    (Plain.push _).bind fun _ => .pure true
  | .newIntArray, _ => Plain.newArray.bind fun _ => .pure true
  | .dup, _ => Plain.duplicate.bind fun _ => .pure true
  | .arrayStore, _ => Plain.storeElement.bind fun _ => .pure true
  | .storeField field, h => absurd rfl (h field)
  | .finish, _ => .pure false
  | .other _, _ => .pure true

/-- Ending the construction takes the array away and offers its contents, if it has all of them. -/
theorem commit_some (name : String) (stack : List Slot) (array : PendingArray)
    (table : SymbolTable) (committed : Nat) :
    commit name ⟨stack, some array, table, committed⟩
      = (match array.contents with
        | .error index => fault (.neverWritten name index)
        | .ok values => offerArray name values : Replay Unit) ⟨stack, none, table, committed⟩ :=
  rfl

/-- A store into a field fails for a reason that lies with the array, or it offers the array. -/
theorem step_storeField (field : FieldRef) (m : Machine) :
    (∃ e, ∀ table committed, step (.storeField field) (m.on table committed)
        = .error e ⟨m.stack, none, table, committed⟩) ∨
    ∃ values, ∀ table committed, step (.storeField field) (m.on table committed)
      = match SymbolTable.insertArray field.name values table with
        | .ok _ table' => .ok true ((Machine.start .empty).on table' (committed + 1))
        | .error e table' => .error e ⟨m.stack, none, table', committed⟩ := by
  obtain ⟨stack, pending, _, _⟩ := m
  cases pending with
  | none => exact .inl ⟨_, fun _ _ => rfl⟩
  | some array =>
    cases hcontents : array.contents with
    | error index =>
      refine .inl ⟨.malformed (.neverWritten field.name index), fun table committed => ?_⟩
      simp only [step, Machine.on, Bind.bind, EStateM.bind, commit_some, hcontents]
      rfl
    | ok values =>
      refine .inr ⟨values, fun table committed => ?_⟩
      simp only [step, Machine.on, Bind.bind, EStateM.bind, commit_some, hcontents, offerArray]
      cases SymbolTable.insertArray field.name values table with
      | ok _ table' => rfl
      | error e table' => rfl

/-! ### Scripts -/

/-- What a stream does to a table: the arrays that it offers, and the fault that ends it, if one
    does. -/
structure Script where
  offers : List (String × List Int32)
  fault? : Option Error

/-- The script with more offers in front. -/
def Script.behind (s : Script) (offers : List (String × List Int32)) : Script :=
  { s with offers := offers ++ s.offers }

/-- The script of a stream from a machine on. Each instruction is tried on an empty table, which
    takes whatever it is offered. -/
def script : List Instruction → Machine → Script
  | [], _ => ⟨[], none⟩
  | insn :: rest, m =>
    match step insn (m.on .empty 0) with
    | .ok true next => (script rest next).behind next.table.arrays.entries
    | .ok false _ => ⟨[], none⟩
    | .error e _ => ⟨[], some e⟩

/-- Makes the offers of a script, and counts them if it ends well. -/
def Script.perform (s : Script) (committed : Nat) : SymbolTable.Update Nat := do
  s.offers.forM fun offer => SymbolTable.insertArray offer.1 offer.2
  match s.fault? with
  | none => return committed + s.offers.length
  | some e => throw e

/-- What an ending means for the table. -/
def tableEnding : EStateM.Result Error Machine α → EStateM.Result Error SymbolTable α
  | .ok a m => .ok a m.table
  | .error e m => .error e m.table

theorem script_on (insns : List Instruction) (m : Machine) (table : SymbolTable)
    (committed : Nat) : script insns (m.on table committed) = script insns m := by
  cases insns <;> rfl

/-- One more offer. -/
theorem Script.perform_behind (offer : String × List Int32) (s : Script) (committed : Nat) :
    (s.behind [offer]).perform committed = (do
      SymbolTable.insertArray offer.1 offer.2
      s.perform (committed + 1)) := by
  have hcount : committed + (s.offers.length + 1) = committed + 1 + s.offers.length := by omega
  simp only [perform, behind, List.cons_append, List.nil_append, List.forM, List.length_cons,
    hcount, bind_assoc]

theorem run_step (insn : Instruction) (rest : List Instruction) (m : Machine) :
    run (insn :: rest) m = match step insn m with
      | .ok true next => run rest next
      | .ok false next => .ok next.committed next
      | .error e next => .error e next := by
  rw [run]
  simp only [Bind.bind, EStateM.bind]
  match step insn m with
  | .ok true _ => rfl
  | .ok false _ => rfl
  | .error _ _ => rfl

/-- A replay makes the offers of its script. -/
theorem run_eq_perform : ∀ (insns : List Instruction) (m : Machine),
    tableEnding (run insns m) = (script insns m).perform m.committed m.table
  | [], m => rfl
  | insn :: rest, m => by
    by_cases hstore : ∃ field, insn = .storeField field
    · obtain ⟨field, rfl⟩ := hstore
      rcases step_storeField field m with ⟨e, he⟩ | ⟨values, hvalues⟩
      · have hself : step (.storeField field) m = _ := he m.table m.committed
        rw [run_step, script, hself, he .empty 0]
        rfl
      · have hself : step (.storeField field) m = _ := hvalues m.table m.committed
        have hfree : SymbolTable.empty.arrays.find? field.name = none := rfl
        have hscript : script (.storeField field :: rest) m
            = (script rest (.start .empty)).behind [(field.name, values)] := by
          rw [script, hvalues .empty 0, SymbolTable.insertArray_fresh hfree]
          simp only [script_on]
          rfl
        rw [run_step, hself, hscript, Script.perform_behind]
        simp only [Bind.bind, EStateM.bind]
        cases SymbolTable.insertArray field.name values m.table with
        | error e table => rfl
        | ok _ table =>
          have hrest := run_eq_perform rest ((Machine.start .empty).on table (m.committed + 1))
          rwa [script_on] at hrest
    · have hframed := (step_plain fun field heq => hstore ⟨field, heq⟩).framed
      have hkeeps := hframed.ends m
      rw [run_step, script, hframed m .empty 0]
      cases hstep : step insn m with
      | error e next =>
        obtain ⟨htable, -⟩ := hkeeps.of_error hstep
        rw [← htable]
        rfl
      | ok goes next =>
        obtain ⟨htable, hcount⟩ := hkeeps.of_ok hstep
        rw [← htable, ← hcount]
        cases goes with
        | false => rfl
        | true =>
          simp only [mapMachine, script_on]
          exact run_eq_perform rest next

/-! ### Whole replays -/

/-- The script of a stream. -/
def scriptOf (insns : List Instruction) : Script := script insns (.start .empty)

end ResourceMerge.Initializer

namespace ResourceMerge.Harvest

open Initializer

/-- A replay ends as the run of its stream does. -/
theorem replay_eq_run (insns : List Instruction) (table : SymbolTable) :
    replay insns table = tableEnding (run insns (.start table)) := by
  rw [replay]
  cases run insns (.start table) <;> rfl

/-- A replay is its script, performed. -/
theorem replay_eq (insns : List Instruction) : replay insns = (scriptOf insns).perform 0 := by
  funext table
  have hsame : script insns (.start table) = scriptOf insns :=
    script_on insns (.start .empty) table 0
  rw [replay_eq_run, ← hsame]
  exact run_eq_perform insns (.start table)

end ResourceMerge.Harvest

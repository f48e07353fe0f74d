import ResourceMerge.Proofs.ClassSteps
import ResourceMerge.Proofs.PoolBodies

/-! What building a class asks the pool for. A step of the construction asks for the slots of some
    items, one after the other, and changes the pool in no other way; apart from the check of a
    body's length it ends as these requests do. So whether a class can be built is a question about
    a list of items, and the errors are those by which a pool refuses an item. -/

namespace ResourceMerge

/-- A pool refuses an item with the error: it is full, or the text is too long. -/
def Error.IsRefusal (e : Error) : Prop :=
  e = .format .poolFull ∨ ∃ n, 65535 < n ∧ e = .format (.utf8TooLong n)

namespace PoolDraft

variable {α β : Type} {draft : PoolDraft} {items : List Item}

/-! ### Refusals -/

/-- The request fails with refusals only. -/
def OnlyRefuses (x : Request α) : Prop :=
  ∀ draft, Ends x draft (fun _ _ => True) fun e _ => e.IsRefusal

namespace OnlyRefuses

theorem pure (a : α) : OnlyRefuses (pure a : Request α) := fun _ => trivial

theorem bind {x : Request α} {f : α → Request β} (hx : OnlyRefuses x)
    (hf : ∀ a, OnlyRefuses (f a)) : OnlyRefuses (x >>= f) :=
  fun draft => (hx draft).andThen (fun a later _ => hf a later) fun _ _ h => h

theorem intern (c : Constant) : OnlyRefuses (intern c) := by
  intro draft
  unfold Ends PoolDraft.intern
  split
  · trivial
  · rename_i heq
    split at heq
    · cases heq
    · split at heq
      · cases heq
      · cases heq
        exact .inl rfl

theorem utf8 (s : String) : OnlyRefuses (utf8 s) := by
  unfold PoolDraft.utf8
  split
  · rename_i hlong
    exact fun draft => .bind (.throw (.inr ⟨_, hlong, rfl⟩))
  · exact intern _

theorem classRef (name : String) : OnlyRefuses (classRef name) := (utf8 name).bind fun _ => intern _

theorem nameAndType (name descriptor : String) : OnlyRefuses (nameAndType name descriptor) :=
  (utf8 name).bind fun _ => (utf8 descriptor).bind fun _ => intern _

theorem ask (item : Item) : OnlyRefuses item.ask := by
  cases item with
  | text s => exact utf8 s
  | integer v => exact intern _
  | classRef name => exact classRef name
  | nameAndType name descriptor => exact nameAndType name descriptor
  | fieldRef field =>
    exact (classRef field.owner).bind fun _ => (nameAndType _ _).bind fun _ => intern _

/-- Instructions that have a form are encoded unless the pool refuses what they name. -/
theorem encodeInstruction {insn : Instruction} (h : insn.HasForm) :
    OnlyRefuses (MethodBody.encodeInstruction insn) := by
  cases insn with
  | pushSmall v =>
    have hsmall : 0 ≤ v ∧ v ≤ 5 := h
    rw [MethodBody.encodeInstruction, if_pos hsmall]
    exact pure _
  | pushConstant v =>
    refine (ask (.integer v)).bind fun i => ?_
    split
    · exact pure _
    · exact pure _
  | storeField field => exact (ask (.fieldRef field)).bind fun _ => pure _
  | other op => exact h.elim
  | _ => exact pure _

theorem encodeInstructions : ∀ {insns : List Instruction}, (∀ insn ∈ insns, insn.HasForm) →
    OnlyRefuses (insns.mapM MethodBody.encodeInstruction)
  | [], _ => pure _
  | insn :: insns, h => by
    obtain ⟨hinsn, hinsns⟩ := List.forall_mem_cons.1 h
    rw [List.mapM_cons]
    exact (encodeInstruction hinsn).bind fun _ => (encodeInstructions hinsns).bind fun _ => pure _

theorem encode {insns : List Instruction} (h : ∀ insn ∈ insns, insn.HasForm) :
    OnlyRefuses (MethodBody.encode insns) :=
  (encodeInstructions h).bind fun _ => pure _

end OnlyRefuses

/-! ### Many items -/

/-- Asks for items, one after the other. -/
def askAll : List Item → Request Unit
  | [] => pure ()
  | item :: items => do
    let _ ← item.ask
    askAll items

theorem askAll_append (asked more : List Item) :
    askAll (asked ++ more) = (do askAll asked; askAll more) := by
  induction asked with
  | nil => rfl
  | cons item asked ih => simp only [List.cons_append, askAll, ih, bind_assoc]

theorem askAll_onlyRefuses : ∀ asked : List Item, OnlyRefuses (askAll asked)
  | [] => .pure ()
  | item :: asked => (OnlyRefuses.ask item).bind fun _ => askAll_onlyRefuses asked

theorem askAll_tracks : ∀ (asked : List Item) {draft : PoolDraft} {items : List Item},
    Lists draft items →
    Tracks (askAll asked) draft items (asked.flatMap Item.parts) fun _ _ => True
  | [], _, _, hlists => .pure hlists trivial
  | item :: asked, _, _, hlists =>
    (ask_tracks hlists item).bind fun _ _ _ _ hlists' _ => askAll_tracks asked hlists'

end PoolDraft

/-- The items whose slots a field takes. -/
def Field.items (field : Field) : List PoolDraft.Item :=
  .text field.name :: .text field.descriptor :: match field.intConstant with
    | none => []
    | some v => [.text ClassFile.constantValueAttribute, .integer v]

namespace ClassDraft

open PoolDraft (Request askAll askAll_append)

variable {α β : Type}

/-! ### Steps and their requests -/

/-- The ending of a step, as far as the pool has to do with it. -/
def poolEnding : EStateM.Result Error ClassDraft α → EStateM.Result Error PoolDraft α
  | .ok a later => .ok a later.pool
  | .error e later => .error e later.pool

/-- What the step does to the pool is what the request does, and both end alike. -/
def Asks (step : Step α) (request : Request α) : Prop :=
  ∀ draft : ClassDraft, poolEnding (step draft) = request draft.pool

namespace Asks

theorem pure (a : α) : Asks (pure a) (pure a) := fun _ => rfl

theorem onPool (request : Request α) : Asks (onPool request) request := by
  intro draft
  cases h : request draft.pool <;> simp only [ClassDraft.onPool, h, poolEnding]

theorem bind {x : Step α} {r : Request α} {f : α → Step β} {g : α → Request β} (hx : Asks x r)
    (hf : ∀ a, Asks (f a) (g a)) : Asks (x >>= f) (r >>= g) := by
  intro draft
  simp only [Bind.bind, EStateM.bind, ← hx draft]
  cases x draft with
  | ok a later => exact hf a later
  | error e later => rfl

/-- A step that succeeds leaves the pool that its request leaves. -/
theorem of_ok {x : Step α} {r : Request α} (h : Asks x r) {draft later : ClassDraft} {a : α}
    (hx : x draft = .ok a later) : r draft.pool = .ok a later.pool := by
  rw [← h draft, hx]
  rfl

/-- A change that leaves the pool alone, in front of a step. -/
theorem skip {g : ClassDraft → ClassDraft} {x : Step α} {r : Request α}
    (hg : ∀ draft, (g draft).pool = draft.pool) (hx : Asks x r) :
    Asks (modify g >>= fun _ => x) r := fun draft => (hx (g draft)).trans (congrArg r (hg draft))

/-- Such a change by itself asks for nothing. -/
theorem modify {g : ClassDraft → ClassDraft} (hg : ∀ draft, (g draft).pool = draft.pool) :
    Asks (modify g) (Pure.pure ⟨⟩) := fun draft =>
  congrArg (EStateM.Result.ok PUnit.unit) (hg draft)

theorem forM {γ : Type} {f : γ → Step Unit} {asked : γ → List PoolDraft.Item}
    (h : ∀ x, Asks (f x) (askAll (asked x))) :
    ∀ xs : List γ, Asks (xs.forM f) (askAll (xs.flatMap asked))
  | [] => pure ()
  | x :: xs => by
    rw [List.flatMap_cons, askAll_append]
    exact (h x).bind fun _ => forM h xs

end Asks

theorem addField_asks (access : Access) (name descriptor : String) (constant : Option Int32) :
    Asks (addField access name descriptor constant)
      (askAll (Field.items ⟨access, name, descriptor, constant⟩)) := by
  refine (Asks.onPool _).bind fun n => (Asks.onPool _).bind fun d => ?_
  cases constant with
  | none => exact .modify fun _ => rfl
  | some v =>
    simp only [constantSlot, bind_assoc, pure_bind]
    refine (Asks.onPool _).bind fun label => .skip (fun _ => rfl) ?_
    exact (Asks.onPool _).bind fun i => .modify fun _ => rfl

/-- A body takes at most 65535 bytes. -/
def checkBody (code : List UInt8) : Request Unit :=
  if code.length > 65535 then throw (.malformed (.bodyTooLong code.length)) else pure ()

theorem checkBody_eq_ok {code : List UInt8} {pool later : PoolDraft} :
    checkBody code pool = .ok () later ↔ code.length ≤ 65535 ∧ pool = later := by
  unfold checkBody
  split
  · rename_i hlong
    exact ⟨nofun, fun h => absurd hlong (not_lt.2 h.1)⟩
  · rename_i hfits
    constructor
    · rintro ⟨⟩
      exact ⟨not_lt.1 hfits, rfl⟩
    · rintro ⟨-, rfl⟩
      rfl

theorem checkBody_eq_error {code : List UInt8} {pool later : PoolDraft} {e : Error} :
    checkBody code pool = .error e later ↔
      65535 < code.length ∧ e = .malformed (.bodyTooLong code.length) ∧ pool = later := by
  unfold checkBody
  split
  · rename_i hlong
    constructor
    · rintro ⟨⟩
      exact ⟨hlong, rfl, rfl⟩
    · rintro ⟨-, rfl, rfl⟩
      rfl
  · rename_i hfits
    exact ⟨nofun, fun h => absurd h.1 hfits⟩

theorem addBody_asks (access : Access) (name descriptor : String) (body : Body) :
    Asks (addBody access name descriptor body) (do
      askAll [.text name, .text descriptor, .text ClassFile.codeAttribute]
      checkBody body.code) := by
  simp only [askAll, bind_assoc, pure_bind]
  refine (Asks.onPool _).bind fun n => (Asks.onPool _).bind fun d => ?_
  refine (Asks.onPool _).bind fun label => .skip (fun _ => rfl) ?_
  unfold checkBody
  split
  · exact fun _ => rfl
  · exact .modify fun _ => rfl

end ClassDraft

end ResourceMerge

import ResourceMerge.Proofs.ClassReading
import ResourceMerge.Proofs.ClassSteps

/-! Any sequence of calls on a class under construction, with calls among them that fail and calls
    that only ask the pool for a slot. Beside the draft a history keeps what the successful calls
    were for. The invariant is that the draft stands for exactly that, so the class file it is
    written as has the members of the successful calls, in the order of the calls. -/

namespace ResourceMerge.ClassDraft

/-- A call on a class under construction, or on its pool. -/
inductive Call where
  | newField (access : Access) (name descriptor : String) (constant : Option Int32)
  | newMethod (access : Access) (name descriptor : String) (insns : List Instruction)
      (maxLocals : UInt16)
  | newRawMethod (access : Access) (name descriptor : String) (body : Body)
  | askText (text : String)
  | askInteger (value : Int32)
  | askClass (name : String)
  | askNameAndType (name descriptor : String)
  | askField (field : FieldRef)

namespace Call

/-- What the call does to the class. -/
def perform : Call → Step Unit
  | .newField access name descriptor constant => addField access name descriptor constant
  | .newMethod access name descriptor insns maxLocals =>
    addMethod access name descriptor insns maxLocals
  | .newRawMethod access name descriptor body => addBody access name descriptor body
  | .askText text => discard (onPool (PoolDraft.utf8 text))
  | .askInteger value => discard (onPool (PoolDraft.integer value))
  | .askClass name => discard (onPool (PoolDraft.classRef name))
  | .askNameAndType name descriptor => discard (onPool (PoolDraft.nameAndType name descriptor))
  | .askField field => discard (onPool (PoolDraft.fieldRef field))

/-- The field that the call is for. -/
def fields : Call → List Field
  | .newField access name descriptor constant => [⟨access, name, descriptor, constant⟩]
  | _ => []

/-- The method that the call is for. The bytes of a body given by its instructions name slots, so
    they depend on the pool that the call finds. -/
def methods (pool : PoolDraft) : Call → List Method
  | .newMethod access name descriptor insns maxLocals =>
    let body := match Instruction.maxStack insns, MethodBody.encode insns pool with
      | .ok maxStack, .ok code _ => some ⟨maxStack, maxLocals, code⟩
      | _, _ => none
    [⟨access, name, descriptor, body⟩]
  | .newRawMethod access name descriptor body => [⟨access, name, descriptor, some body⟩]
  | _ => []

end Call

/-- A class under construction, and the members that its successful calls were for. -/
structure History where
  draft : ClassDraft
  fields : List Field
  methods : List Method

namespace History

/-- One more call. A call that fails leaves its draft behind, but was for nothing. -/
def after (history : History) (call : Call) : History :=
  match call.perform history.draft with
  | .ok _ later =>
    ⟨later, history.fields ++ call.fields,
      history.methods ++ call.methods history.draft.pool⟩
  | .error _ later => ⟨later, history.fields, history.methods⟩

/-- The calls on a new class, one after the other. -/
def ofCalls (draft : ClassDraft) (calls : List Call) : History :=
  calls.foldl after ⟨draft, [], []⟩

end History

/-! ### One call -/

variable {draft : ClassDraft} {outline : Outline}

/-- A request to the pool adds no member, and what it leaves stands for the same. -/
theorem request_ends {α : Type} {request : PoolDraft.Request α} {good : α → PoolDraft → Prop}
    (h : draft.Stands outline)
    (hrequest : Ends request draft.pool (fun a pool => draft.pool.Grows pool ∧ good a pool)
      fun _ pool => draft.pool.Grows pool) :
    Ends (discard (onPool request)) draft (fun _ later => later.Stands outline)
      (fun _ later => later.Stands outline) := by
  refine (onPool_ends hrequest).andThen ?_ fun _ _ => h.of_failed
  rintro a _ ⟨pool, rfl, hgrows, -⟩
  exact .pure (h.withPool hgrows)

/-- The class with the members that a call is for. -/
def Call.extend (call : Call) (pool : PoolDraft) (outline : Outline) : Outline :=
  { outline with
    fields := outline.fields ++ call.fields
    methods := outline.methods ++ call.methods pool }

/-- A call that is for no member leaves the class as it was. -/
theorem Call.extend_of_none {call : Call} {pool : PoolDraft} (hfields : call.fields = [])
    (hmethods : call.methods pool = []) (outline : Outline) :
    call.extend pool outline = outline := by
  rw [Call.extend, hfields, hmethods, List.append_nil, List.append_nil]

/-- A call that succeeds adds what it is for, and a call that fails adds nothing. -/
theorem Call.perform_ends (call : Call) (h : draft.Stands outline) :
    Ends call.perform draft (fun _ later => later.Stands (call.extend draft.pool outline))
      (fun _ later => later.Stands outline) := by
  cases call with
  | newField access name descriptor constant =>
    refine (addField_ends h access name descriptor constant).mono ?_ fun _ _ h => h
    intro _ later hlater
    simpa [Call.extend, Call.fields, Call.methods, Outline.withField] using hlater
  | newMethod access name descriptor insns maxLocals =>
    refine (addMethod_ends h access name descriptor insns maxLocals).mono ?_ fun _ _ h => h
    rintro _ later ⟨maxStack, code, pool, hmax, hcode, -, hlater⟩
    simpa [Call.extend, Call.fields, Call.methods, hmax, hcode, Outline.withMethod] using hlater
  | newRawMethod access name descriptor body =>
    refine (addBody_ends h access name descriptor body).mono ?_ fun _ _ h => h
    rintro _ later ⟨-, hlater⟩
    simpa [Call.extend, Call.fields, Call.methods, Outline.withMethod] using hlater
  | askText text =>
    rw [Call.extend_of_none rfl rfl]
    exact request_ends h (PoolDraft.utf8_ends text draft.pool)
  | askInteger value =>
    rw [Call.extend_of_none rfl rfl]
    exact request_ends h (PoolDraft.integer_ends value draft.pool)
  | askClass name =>
    rw [Call.extend_of_none rfl rfl]
    exact request_ends h (PoolDraft.classRef_ends name draft.pool)
  | askNameAndType name descriptor =>
    rw [Call.extend_of_none rfl rfl]
    exact request_ends h (PoolDraft.nameAndType_ends name descriptor draft.pool)
  | askField field =>
    rw [Call.extend_of_none rfl rfl]
    exact request_ends h (PoolDraft.fieldRef_ends field draft.pool)

/-! ### Any number of calls -/

namespace History

/-- The class with the members that the successful calls were for. -/
def asOutline (history : History) (bare : Outline) : Outline :=
  { bare with fields := history.fields, methods := history.methods }

/-- The invariant goes through a call. -/
theorem after_stands {history : History} {bare : Outline}
    (h : history.draft.Stands (history.asOutline bare)) (call : Call) :
    (history.after call).draft.Stands ((history.after call).asOutline bare) := by
  have hends := call.perform_ends h
  unfold after
  cases hcall : call.perform history.draft with
  | ok _ later => exact hends.of_ok hcall
  | error e later => exact hends.of_error hcall

theorem foldl_stands (bare : Outline) : ∀ (calls : List Call) (history : History),
    history.draft.Stands (history.asOutline bare) →
    (calls.foldl after history).draft.Stands ((calls.foldl after history).asOutline bare)
  | [], _, h => h
  | call :: calls, history, h =>
    foldl_stands bare calls (history.after call) (after_stands h call)

theorem ofCalls_stands {name superName : String} {access : Access} {version : UInt16}
    {draft : ClassDraft} (h : start name superName access version = .ok draft)
    (calls : List Call) :
    (ofCalls draft calls).draft.Stands ⟨name, superName, access, version,
      (ofCalls draft calls).fields, (ofCalls draft calls).methods⟩ := by
  let bare : Outline := ⟨name, superName, access, version, [], []⟩
  have hnone : draft.Stands bare := start_stands h
  exact foldl_stands bare calls ⟨draft, [], []⟩ hnone

/-- Whatever calls were made on a new class, as long as no more than 65535 fields and as many
    methods were added, it is written, and read back with its names, flags and version, without
    interfaces, and with the members of the successful calls in their order. One more call that
    fails changes nothing of that. -/
theorem calls_read_back {name superName : String} {access : Access} {version : UInt16}
    {draft : ClassDraft} (hstart : start name superName access version = .ok draft)
    (calls : List Call) (hfields : (ofCalls draft calls).fields.length ≤ 65535)
    (hmethods : (ofCalls draft calls).methods.length ≤ 65535) :
    (∃ bytes pool, (ofCalls draft calls).draft.write = .ok bytes ∧
      ClassFile.ofBytes bytes = .ok
        { minorVersion := 0, majorVersion := version, pool, access, thisClass := name,
          superClass := some superName, interfaces := [],
          fields := (ofCalls draft calls).fields, methods := (ofCalls draft calls).methods }) ∧
    ∀ (call : Call) (e : Error) (later : ClassDraft),
      call.perform (ofCalls draft calls).draft = .error e later →
      ∃ bytes pool, later.write = .ok bytes ∧
        ClassFile.ofBytes bytes = .ok
          { minorVersion := 0, majorVersion := version, pool, access, thisClass := name,
            superClass := some superName, interfaces := [],
            fields := (ofCalls draft calls).fields, methods := (ofCalls draft calls).methods } := by
  have hstands := ofCalls_stands hstart calls
  constructor
  · obtain ⟨bytes, hwrite, hreads⟩ := hstands.write_reads hfields hmethods
    exact ⟨bytes, _, hwrite, hreads.read⟩
  · intro call e later hfailed
    have hlater := (call.perform_ends hstands).of_error hfailed
    obtain ⟨bytes, hwrite, hreads⟩ := hlater.write_reads hfields hmethods
    exact ⟨bytes, _, hwrite, hreads.read⟩

/-- A constant field, a body without a form whose first constant gets a slot nevertheless, a slot
    for a text, and an initialiser. -/
def sampleCalls : List Call :=
  [.newField .ofConstant "x" "I" (some 7),
   .newMethod .ofInitializer "<clinit>" "()V" [.pushConstant 9, .pushSmall 9] 0,
   .askText "unused",
   .newMethod .ofInitializer "<clinit>" "()V" [.pushConstant 70000, .newIntArray, .finish] 0]

theorem calls_read_back_sample :
    ∃ draft, start "R$id" "java/lang/Object" .ofGeneratedClass 50 = .ok draft ∧
      (ofCalls draft sampleCalls).fields = [⟨.ofConstant, "x", "I", some 7⟩] ∧
      (ofCalls draft sampleCalls).methods =
        [⟨.ofInitializer, "<clinit>", "()V", some ⟨1, 0, [18, 11, 188, 10, 177]⟩⟩] ∧
      ∃ bytes file, (ofCalls draft sampleCalls).draft.write = .ok bytes ∧
        ClassFile.ofBytes bytes = .ok file ∧ file.fields = (ofCalls draft sampleCalls).fields ∧
        file.methods = (ofCalls draft sampleCalls).methods := by
  have hsample : (start "R$id" "java/lang/Object" .ofGeneratedClass 50).toOption.any (fun draft =>
      (ofCalls draft sampleCalls).fields = [⟨.ofConstant, "x", "I", some 7⟩] ∧
      (ofCalls draft sampleCalls).methods =
        [⟨.ofInitializer, "<clinit>", "()V", some ⟨1, 0, [18, 11, 188, 10, 177]⟩⟩]) = true := by
    decide +kernel
  obtain ⟨draft, hstart, hmembers⟩ := Except.exists_of_any hsample
  obtain ⟨hfields, hmethods⟩ := of_decide_eq_true hmembers
  have hread := calls_read_back hstart sampleCalls (by simp [hfields]) (by simp [hmethods])
  obtain ⟨⟨bytes, pool, hwrite, hbytes⟩, -⟩ := hread
  exact ⟨draft, hstart, hfields, hmethods, bytes, _, hwrite, hbytes, rfl, rfl⟩

end History

end ResourceMerge.ClassDraft

import ResourceMerge.Proofs.CallHistory
import ResourceMerge.Proofs.PoolListing

/-! The counts in front of the members of a class. All members are written, however many they are,
    but a count has sixteen bits and keeps the low ones of a number that has more. The limit of the
    pool does not come first: a member that is like one that is there takes no new slot, so there
    may be any number of it, and the file then tells fewer members than it holds. -/

namespace ResourceMerge.ClassDraft

open Binary

/-! ### What stands in the file -/

/-- The members that stand in a class file, and the counts in front of them. -/
structure StoredMembers where
  fieldCount : UInt16
  fields : List Field
  methodCount : UInt16
  methods : List Method

/-- Reads so many fields and methods of a class file, whatever the counts in front of them say. -/
def storedMembers (fields methods : Nat) : Reader StoredMembers := do
  Reader.skip 8
  let pool ← ConstantPool.read
  Reader.skip 6
  let _ ← ClassFile.readCounted Reader.u16
  let fieldCount ← Reader.u16
  let fields ← Reader.times fields (ClassFile.readField pool)
  let methodCount ← Reader.u16
  let methods ← Reader.times methods (ClassFile.readMethod pool)
  ClassFile.skipAttributes
  return { fieldCount, fields, methodCount, methods }

/-- The members of a class, each kind behind the low bits of its number. -/
def StoredMembers.ofOutline (outline : Outline) : StoredMembers where
  fieldCount := UInt16.ofNat outline.fields.length
  fields := outline.fields
  methodCount := UInt16.ofNat outline.methods.length
  methods := outline.methods

variable {draft : ClassDraft} {outline : Outline}

/-- A class is written with all its members, however many they are. -/
theorem Stands.write_stores (h : draft.Stands outline) :
    ∃ bytes, draft.write = .ok bytes ∧
      Reads (storedMembers outline.fields.length outline.methods.length) bytes
        (.ofOutline outline) := by
  obtain ⟨poolBytes, hwrite, hpool⟩ := PoolDraft.write_reads h.writable
  refine ⟨_, by rw [write, hwrite]; rfl, ?_⟩
  have hversions : Reads (Reader.skip 8) _ () :=
    Reads.skip (u32 ClassFile.magic ++ (u16 0 ++ u16 draft.majorVersion))
  have hnames : Reads (Reader.skip 6) _ () :=
    Reads.skip (u16 draft.access.bits ++ (u16 draft.thisClass ++ u16 draft.superClass))
  have hinterfaces : Reads (ClassFile.readCounted Reader.u16) (u16 0) [] :=
    (Reads.u16 0).bind (Reads.pure [])
  have hskip : Reads ClassFile.skipAttributes (u16 0) () := (Reads.u16 0).bind (Reads.pure ())
  have hreader : Reads (storedMembers outline.fields.length outline.methods.length)
      ((u32 ClassFile.magic ++ (u16 0 ++ u16 draft.majorVersion)) ++ (poolBytes ++
        ((u16 draft.access.bits ++ (u16 draft.thisClass ++ u16 draft.superClass)) ++ (u16 0 ++
          (u16 (UInt16.ofNat outline.fields.length) ++
            (draft.fields.toList.flatMap (writeField draft.constantValueAttribute) ++
              (u16 (UInt16.ofNat outline.methods.length) ++
                (draft.methods.toList.flatMap (writeMethod (draft.codeAttribute.getD 0)) ++
                  u16 0)))))))) (.ofOutline outline) := by
    refine hversions.bind (hpool.bind (hnames.bind (hinterfaces.bind ?_)))
    refine (Reads.u16 _).bind ((Reads.times h.fields_read).bind ?_)
    refine (Reads.u16 _).bind ((Reads.times h.methods_read).bind ?_)
    exact hskip.map fun _ => StoredMembers.mk _ outline.fields _ outline.methods
  simpa [← h.fields.length_eq, ← h.methods.length_eq] using hreader

/-! ### Members without new slots -/

/-- A request for what is there leaves the class as it is. -/
theorem onPool_of_ok {α : Type} {request : PoolDraft.Request α} {a : α}
    (h : request draft.pool = .ok a draft.pool) : onPool request draft = .ok a draft := by
  rw [onPool, h]

theorem constantSlot_of_stands (h : draft.Stands outline) {slot : Option UInt16}
    {constant : Option Int32}
    (hslot : Option.Rel (fun i v => draft.pool.frozen.integer? i = .ok (some v)) slot constant)
    (hlabelled : slot.isSome → draft.constantValueAttribute.isSome) :
    constantSlot constant draft = .ok slot draft := by
  cases hslot with
  | none => rfl
  | @some i v hi =>
    obtain ⟨label, hlabel⟩ := Option.isSome_iff_exists.1 (hlabelled rfl)
    have htext := PoolDraft.utf8_of_at h.writable (h.constantLabel label hlabel)
    have hvalue := PoolDraft.intern_of_get (ConstantPool.integer?_eq_some.1 hi)
    have hsame : { draft with constantValueAttribute := some label } = draft := by
      rw [← hlabel]
    refine bind_eq_ok.2 ⟨label, draft, onPool_of_ok htext, bind_eq_ok.2 ⟨⟨⟩, draft, ?_, ?_⟩⟩
    · exact congrArg (EStateM.Result.ok PUnit.unit) hsame
    · exact bind_eq_ok.2 ⟨i, draft, onPool_of_ok hvalue, rfl⟩

/-- A field like one that is there is added without a new slot. -/
theorem addField_of_stands (h : draft.Stands outline) {fieldDraft : FieldDraft} {field : Field}
    (hf : FieldStands draft.pool.frozen draft.constantValueAttribute fieldDraft field) :
    addField field.access field.name field.descriptor field.intConstant draft
      = .ok () { draft with fields := draft.fields.push fieldDraft } := by
  have hname := PoolDraft.utf8_of_at h.writable hf.name
  have hdescriptor := PoolDraft.utf8_of_at h.writable hf.descriptor
  have hconstant := constantSlot_of_stands h hf.constant hf.labelled
  refine bind_eq_ok.2 ⟨_, draft, onPool_of_ok hname, ?_⟩
  refine bind_eq_ok.2 ⟨_, draft, onPool_of_ok hdescriptor, ?_⟩
  refine bind_eq_ok.2 ⟨_, draft, hconstant, ?_⟩
  rw [← hf.access]
  rfl

namespace History

variable {history : History} {bare : Outline} {field : Field}

/-- The call for a field. -/
def callFor (field : Field) : Call :=
  .newField field.access field.name field.descriptor field.intConstant

theorem after_callFor (h : history.draft.Stands (history.asOutline bare))
    (hfield : field ∈ history.fields) :
    (history.after (callFor field)).fields = history.fields ++ [field] ∧
      (history.after (callFor field)).methods = history.methods := by
  obtain ⟨k, hk, rfl⟩ := List.getElem_of_mem hfield
  have hk' : k < history.draft.fields.toList.length := h.fields.length_eq ▸ hk
  have hcall : (callFor history.fields[k]).perform history.draft = .ok () _ :=
    addField_of_stands h (h.fields.get hk' hk)
  rw [after, hcall]
  exact ⟨rfl, List.append_nil _⟩

/-- A field can be added again any number of times. -/
theorem foldl_callFor : ∀ (n : Nat) {history : History},
    history.draft.Stands (history.asOutline bare) → field ∈ history.fields →
    ((List.replicate n (callFor field)).foldl after history).fields
        = history.fields ++ List.replicate n field ∧
      ((List.replicate n (callFor field)).foldl after history).methods = history.methods
  | 0, history, _, _ => ⟨(List.append_nil _).symm, rfl⟩
  | n + 1, history, h, hfield => by
    obtain ⟨hfields, hmethods⟩ := after_callFor h hfield
    have hmem : field ∈ (history.after (callFor field)).fields := by
      rw [hfields]
      exact List.mem_append_left _ hfield
    obtain ⟨hfields', hmethods'⟩ := foldl_callFor n (after_stands h (callFor field)) hmem
    rw [List.replicate_succ, List.foldl_cons, hfields', hmethods', hfields, hmethods,
      List.append_assoc]
    exact ⟨rfl, rfl⟩

/-- A field that a new class takes once it takes any number of times. -/
theorem ofCalls_replicate {name superName : String} {access : Access} {version : UInt16}
    {draft : ClassDraft} (hstart : start name superName access version = .ok draft)
    (hfields : (ofCalls draft [callFor field]).fields = [field])
    (hmethods : (ofCalls draft [callFor field]).methods = []) (n : Nat) :
    (ofCalls draft (List.replicate (n + 1) (callFor field))).fields = List.replicate (n + 1) field ∧
      (ofCalls draft (List.replicate (n + 1) (callFor field))).methods = [] := by
  let bare : Outline := ⟨name, superName, access, version, [], []⟩
  have hstands : (ofCalls draft [callFor field]).draft.Stands
      ((ofCalls draft [callFor field]).asOutline bare) := ofCalls_stands hstart _
  have hmore := foldl_callFor n hstands (hfields ▸ List.mem_singleton_self field)
  rw [hfields, hmethods] at hmore
  exact hmore

/-! ### Any calls -/

/-- Whatever calls were made on a new class, it is written, and the members of the successful calls
    stand in the file, in the order of the calls. Each kind has its number in front of it, but only
    the low sixteen bits of it; so the count is right exactly if there are at most 65535 members of
    the kind. -/
theorem stored_counts {name superName : String} {access : Access} {version : UInt16}
    {draft : ClassDraft} (hstart : start name superName access version = .ok draft)
    (calls : List Call) :
    ∃ bytes stored, (ofCalls draft calls).draft.write = .ok bytes ∧
      (storedMembers (ofCalls draft calls).fields.length
        (ofCalls draft calls).methods.length).read bytes = .ok stored ∧
      stored.fields = (ofCalls draft calls).fields ∧
      stored.methods = (ofCalls draft calls).methods ∧
      stored.fieldCount.toNat = stored.fields.length % 65536 ∧
      stored.methodCount.toNat = stored.methods.length % 65536 ∧
      (stored.fieldCount.toNat = stored.fields.length ↔ stored.fields.length ≤ 65535) ∧
      (stored.methodCount.toNat = stored.methods.length ↔ stored.methods.length ≤ 65535) := by
  obtain ⟨bytes, hwrite, hreads⟩ := (ofCalls_stands hstart calls).write_stores
  have hcount (n : Nat) : (UInt16.ofNat n).toNat = n ↔ n ≤ 65535 := by
    rw [UInt16.toNat_ofNat']
    omega
  exact ⟨bytes, _, hwrite, hreads.read, rfl, rfl, UInt16.toNat_ofNat', UInt16.toNat_ofNat',
    hcount _, hcount _⟩

theorem stored_counts_sample :
    ∃ draft bytes stored, start "R$id" "java/lang/Object" .ofGeneratedClass 50 = .ok draft ∧
      (ofCalls draft sampleCalls).draft.write = .ok bytes ∧
      (storedMembers 1 1).read bytes = .ok stored ∧
      stored.fields = [⟨.ofConstant, "x", "I", some 7⟩] ∧ stored.fieldCount = 1 ∧
      stored.methodCount = 1 := by
  have hsample : (start "R$id" "java/lang/Object" .ofGeneratedClass 50).toOption.any (fun draft =>
      (ofCalls draft sampleCalls).fields = [⟨.ofConstant, "x", "I", some 7⟩] ∧
      (ofCalls draft sampleCalls).methods.length = 1) = true := by
    decide +kernel
  obtain ⟨draft, hstart, hmembers⟩ := Except.exists_of_any hsample
  obtain ⟨hfields, hmethods⟩ := of_decide_eq_true hmembers
  obtain ⟨bytes, stored, hwrite, hread, hstored, hstored', hcount, hcount', -⟩ :=
    stored_counts hstart sampleCalls
  rw [hfields, hmethods] at hread
  rw [hstored, hfields] at hcount
  rw [hstored', hmethods] at hcount'
  exact ⟨draft, bytes, stored, hstart, hwrite, hread, hstored.trans hfields,
    UInt16.toNat_inj.1 hcount, UInt16.toNat_inj.1 hcount'⟩

/-- A field without a constant. -/
def sampleField : Field := ⟨.ofConstant, "f", "I", none⟩

/-- The count in front of 65536 fields is zero. -/
theorem fieldCount_wraps {name superName : String} {access : Access} {version : UInt16}
    {draft : ClassDraft} (hstart : start name superName access version = .ok draft)
    {calls : List Call} (hfields : (ofCalls draft calls).fields.length = 65536)
    (hmethods : (ofCalls draft calls).methods = []) :
    ∃ bytes stored, (ofCalls draft calls).draft.write = .ok bytes ∧
      (storedMembers 65536 0).read bytes = .ok stored ∧ stored.fields.length = 65536 ∧
      stored.fieldCount = 0 := by
  obtain ⟨bytes, hwrite, hreads⟩ := (ofCalls_stands hstart calls).write_stores
  simp only [hfields, hmethods, List.length_nil] at hreads
  refine ⟨bytes, _, hwrite, hreads.read, hfields, ?_⟩
  rw [StoredMembers.ofOutline, hfields]
  rfl

/-- A class that takes 65536 fields, all of which stand in the file behind the count zero. -/
theorem stored_counts_wrap :
    ∃ draft bytes stored, start "R$styleable" "java/lang/Object" .ofGeneratedClass 50 = .ok draft ∧
      (ofCalls draft (List.replicate 65536 (callFor sampleField))).fields.length = 65536 ∧
      (ofCalls draft (List.replicate 65536 (callFor sampleField))).draft.write = .ok bytes ∧
      (storedMembers 65536 0).read bytes = .ok stored ∧ stored.fields.length = 65536 ∧
      stored.fieldCount = 0 := by
  have hsample : (start "R$styleable" "java/lang/Object" .ofGeneratedClass 50).toOption.any
      (fun draft => (ofCalls draft [callFor sampleField]).fields = [sampleField] ∧
        (ofCalls draft [callFor sampleField]).methods = []) = true := by
    decide +kernel
  obtain ⟨draft, hstart, hmembers⟩ := Except.exists_of_any hsample
  obtain ⟨hfirst, hnone⟩ := of_decide_eq_true hmembers
  obtain ⟨hfields, hmethods⟩ := ofCalls_replicate hstart hfirst hnone 65535
  have hlength : (ofCalls draft (List.replicate 65536 (callFor sampleField))).fields.length
      = 65536 := by
    rw [hfields, List.length_replicate]
  obtain ⟨bytes, stored, hwrite, hread, hstored, hcount⟩ :=
    fieldCount_wraps hstart hlength hmethods
  exact ⟨draft, bytes, stored, hstart, hlength, hwrite, hread, hstored, hcount⟩

end History

end ResourceMerge.ClassDraft

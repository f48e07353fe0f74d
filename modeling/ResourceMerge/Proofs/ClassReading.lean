import ResourceMerge.Proofs.ClassOutline
import ResourceMerge.Proofs.PoolRoundTrip

/-! A class under construction is written as bytes that are read as the class it stands for. The
    reader goes through the parts in the order in which they were written; the only thing that the
    written form has no room for is a number of members beyond sixteen bits. -/

namespace ResourceMerge

open Binary

namespace ClassFile

/-- The first of several attributes, behind its label and its size. -/
theorem foldAttributes_reads {α : Type} {pool : ConstantPool}
    {interpret : String → List UInt8 → α → Except Error α} {label : UInt16} {name : String}
    {size : UInt32} {bytes rest : List UInt8} {count : Nat} {a b c : α}
    (hname : pool.utf8 label = .ok name) (hsize : size.toNat = bytes.length)
    (h : interpret name bytes a = .ok b)
    (hrest : Reads (foldAttributes pool interpret count b) rest c) :
    Reads (foldAttributes pool interpret (count + 1) a)
      (u16 label ++ (u32 size ++ (bytes ++ rest))) c := by
  refine (Reads.u16 label).bind ((Reads.ofExcept hname).bind ?_)
  refine (Reads.u32 size).bind ?_
  rw [hsize]
  exact (Reads.take bytes).bind ((Reads.ofExcept h).bind hrest)

/-- One attribute and no other. -/
theorem foldAttributes_reads_one {α : Type} {pool : ConstantPool}
    {interpret : String → List UInt8 → α → Except Error α} {label : UInt16} {name : String}
    {size : UInt32} {bytes : List UInt8} {a b : α} (hname : pool.utf8 label = .ok name)
    (hsize : size.toNat = bytes.length) (h : interpret name bytes a = .ok b) :
    Reads (foldAttributes pool interpret (1 : UInt16).toNat a)
      (u16 label ++ (u32 size ++ bytes)) b := by
  have hnone : Reads (foldAttributes pool interpret 0 b) [] b := Reads.pure b
  have hfold := foldAttributes_reads hname hsize h hnone
  rwa [List.append_nil] at hfold

theorem readBody_reads {body : Body} (h : body.code.length ≤ 65535) :
    Reads readBody (u16 body.maxStack ++ (u16 body.maxLocals ++
      (u32 (UInt32.ofNat body.code.length) ++ (body.code ++ (u16 0 ++ u16 0))))) body := by
  have hlength : (UInt32.ofNat body.code.length).toNat = body.code.length := by
    rw [UInt32.toNat_ofNat']
    omega
  refine (Reads.u16 _).bind ((Reads.u16 _).bind ((Reads.u32 _).bind ?_))
  rw [hlength]
  have hskip : Reads skipAttributes (u16 0) () := (Reads.u16 0).bind (Reads.pure ())
  exact (Reads.take body.code).bind ((Reads.u16 0).bind
    ((Reads.skip []).bind (hskip.map fun _ => body)))

section Members

variable {α β : Type} {pool : ConstantPool}
  {interpret : String → List UInt8 → Option β → Except Error (Option β)}

/-- One member: its words, its two names and what its attributes come to. Fields and methods differ
    in what they look for in the attributes. -/
def readMember (pool : ConstantPool)
    (interpret : String → List UInt8 → Option β → Except Error (Option β))
    (make : Access → String → String → Option β → α) : Reader α := do
  let access ← Reader.u16
  let name ← Reader.ofExcept (pool.utf8 (← Reader.u16))
  let descriptor ← Reader.ofExcept (pool.utf8 (← Reader.u16))
  let count ← Reader.u16
  let found ← foldAttributes pool interpret count.toNat none
  return make ⟨access⟩ name descriptor found

theorem readField_eq (pool : ConstantPool) :
    readField pool = readMember pool (constantOf pool) Field.mk := rfl

theorem readMethod_eq (pool : ConstantPool) :
    readMethod pool = readMember pool bodyOf Method.mk := rfl

theorem readMember_reads (make : Access → String → String → Option β → α)
    {access i j count : UInt16} {bytes : List UInt8} {name descriptor : String} {found : Option β}
    (hname : pool.utf8 i = .ok name) (hdescriptor : pool.utf8 j = .ok descriptor)
    (hfold : Reads (foldAttributes pool interpret count.toNat none) bytes found) :
    Reads (readMember pool interpret make) (u16 access ++ (u16 i ++ (u16 j ++ (u16 count ++ bytes))))
      (make ⟨access⟩ name descriptor found) := by
  refine (Reads.u16 _).bind ((Reads.u16 _).bind ((Reads.ofExcept hname).bind ?_))
  refine (Reads.u16 _).bind ((Reads.ofExcept hdescriptor).bind ((Reads.u16 _).bind ?_))
  exact hfold.map (make ⟨access⟩ name descriptor)

end Members

/-- A list behind its length. -/
theorem readCounted_reads {α γ : Type} {item : Reader α} {bytes : γ → List UInt8} {items : List γ}
    {values : List α} (h : List.Forall₂ (fun x a => Reads item (bytes x) a) items values)
    (hlength : values.length ≤ 65535) :
    Reads (readCounted item) (u16 (UInt16.ofNat items.length) ++ items.flatMap bytes) values := by
  refine (Reads.u16 _).bind ?_
  have hcount : (UInt16.ofNat items.length).toNat = values.length := by
    rw [UInt16.toNat_ofNat', h.length_eq]
    omega
  rw [hcount]
  exact Reads.times h

end ClassFile

namespace ClassDraft

variable {draft : ClassDraft} {outline : Outline} {pool : ConstantPool} {label : Option UInt16}

theorem writeField_reads {fieldDraft : FieldDraft} {field : Field}
    (h : FieldStands pool label fieldDraft field)
    (hlabel : ∀ l ∈ label, pool.utf8 l = .ok ClassFile.constantValueAttribute) :
    Reads (ClassFile.readField pool) (writeField label fieldDraft) field := by
  obtain ⟨access, name, descriptor, constant⟩ := fieldDraft
  obtain ⟨_, fieldName, fieldDescriptor, intConstant⟩ := field
  obtain ⟨rfl, hname, hdescriptor, hconstant, hlabelled⟩ := h
  cases hconstant with
  | none =>
    have hfold : Reads (ClassFile.foldAttributes pool (ClassFile.constantOf pool)
        (0 : UInt16).toNat none) [] none := Reads.pure none
    simpa [writeField, ClassFile.readField_eq] using
      ClassFile.readMember_reads Field.mk hname hdescriptor hfold
  | @some i v hi =>
    obtain ⟨l, rfl⟩ := Option.isSome_iff_exists.1 (hlabelled rfl)
    have hinterpret : ClassFile.constantOf pool ClassFile.constantValueAttribute (u16 i) none
        = .ok (some v) := by
      simp only [ClassFile.constantOf, if_true, (Reads.u16 i).read]
      exact hi
    have hsize : (2 : UInt32).toNat = (u16 i).length := rfl
    have hfold := ClassFile.foldAttributes_reads_one (hlabel l rfl) hsize hinterpret
    simpa [writeField, ClassFile.readField_eq] using
      ClassFile.readMember_reads Field.mk hname hdescriptor hfold

theorem writeMethod_reads {methodDraft : MethodDraft} {method : Method} {l : UInt16}
    (h : MethodStands pool (some l) methodDraft method)
    (hlabel : pool.utf8 l = .ok ClassFile.codeAttribute) :
    Reads (ClassFile.readMethod pool) (writeMethod l methodDraft) method := by
  obtain ⟨access, name, descriptor, body⟩ := methodDraft
  obtain ⟨_, methodName, methodDescriptor, _⟩ := method
  obtain ⟨rfl, hname, hdescriptor, rfl, hfits, -⟩ := h
  simp only at hfits hname hdescriptor ⊢
  have hbody := (ClassFile.readBody_reads hfits).read
  have hinterpret : ∀ bytes, ClassFile.readBody.read bytes = .ok body →
      ClassFile.bodyOf ClassFile.codeAttribute bytes none = .ok (some body) := by
    intro bytes hbytes
    simp only [ClassFile.bodyOf, if_true, hbytes]
    rfl
  have hsize : (12 + UInt32.ofNat body.code.length).toNat
      = (u16 body.maxStack ++ (u16 body.maxLocals ++ (u32 (UInt32.ofNat body.code.length) ++
        (body.code ++ (u16 0 ++ u16 0))))).length := by
    simp only [u16, u32, List.length_append, List.length_cons, List.length_nil, UInt32.toNat_add,
      UInt32.toNat_ofNat', UInt32.reduceToNat]
    omega
  have hfold := ClassFile.foldAttributes_reads_one hlabel hsize (hinterpret _ hbody)
  simpa [writeMethod, ClassFile.readMethod_eq] using
    ClassFile.readMember_reads Method.mk hname hdescriptor hfold

/-- A class that stands for something has a superclass, so its slot is not zero. -/
theorem superName_eq {name : String} {i : UInt16} {draft : PoolDraft}
    (h : draft.frozen.className i = .ok name) :
    ClassFile.superName draft.frozen i = .ok (some name) := by
  have hi : i ≠ 0 := by
    rintro rfl
    obtain ⟨n, hn, -⟩ := ConstantPool.className_eq_ok.1 h
    obtain ⟨k, hk, -⟩ := PoolDraft.frozen_get.1 hn
    cases hk
  rw [ClassFile.superName, if_neg hi, h]
  rfl

/-- What is behind the names of a class: no interfaces, its members, no attributes. -/
def memberBytes (draft : ClassDraft) : List UInt8 :=
  u16 0 ++ (u16 (UInt16.ofNat draft.fields.toList.length) ++
    draft.fields.toList.flatMap (writeField draft.constantValueAttribute) ++
    (u16 (UInt16.ofNat draft.methods.toList.length) ++
      draft.methods.toList.flatMap (writeMethod (draft.codeAttribute.getD 0)) ++ u16 0))

namespace Stands

theorem fields_read (h : draft.Stands outline) :
    List.Forall₂ (fun fieldDraft field => Reads (ClassFile.readField draft.pool.frozen)
      (writeField draft.constantValueAttribute fieldDraft) field)
      draft.fields.toList outline.fields :=
  h.fields.imp fun _ _ hf => writeField_reads hf h.constantLabel

theorem methods_read (h : draft.Stands outline) :
    List.Forall₂ (fun methodDraft method => Reads (ClassFile.readMethod draft.pool.frozen)
      (writeMethod (draft.codeAttribute.getD 0) methodDraft) method)
      draft.methods.toList outline.methods := by
  refine h.methods.imp fun _ _ hm => ?_
  obtain ⟨l, hl⟩ := Option.isSome_iff_exists.1 hm.labelled
  rw [hl] at hm ⊢
  exact writeMethod_reads hm (h.codeLabel l hl)

theorem members_read {α : Type} (h : draft.Stands outline)
    (hfields : outline.fields.length ≤ 65535) (hmethods : outline.methods.length ≤ 65535)
    (finish : List String → List Field → List Method → α) :
    Reads (do
      let interfaces ← ClassFile.readCounted (do
        Reader.ofExcept (draft.pool.frozen.className (← Reader.u16)))
      let fields ← ClassFile.readCounted (ClassFile.readField draft.pool.frozen)
      let methods ← ClassFile.readCounted (ClassFile.readMethod draft.pool.frozen)
      ClassFile.skipAttributes
      return finish interfaces fields methods)
      (memberBytes draft) (finish [] outline.fields outline.methods) := by
  have hinterfaces : Reads (ClassFile.readCounted (do
      Reader.ofExcept (draft.pool.frozen.className (← Reader.u16)))) (u16 0) [] :=
    (Reads.u16 0).bind (Reads.pure [])
  have hskip : Reads ClassFile.skipAttributes (u16 0) () := (Reads.u16 0).bind (Reads.pure ())
  have hfieldList := ClassFile.readCounted_reads h.fields_read hfields
  have hmethodList := ClassFile.readCounted_reads h.methods_read hmethods
  exact hinterfaces.bind (hfieldList.bind (hmethodList.bind
    (hskip.map fun _ => finish [] outline.fields outline.methods)))

/-- Writing does not fail: only an entry without a form could stop it. -/
theorem write_succeeds (h : draft.Stands outline) : ∃ bytes, draft.write = .ok bytes := by
  obtain ⟨poolBytes, hwrite, -⟩ := PoolDraft.write_reads h.writable
  exact ⟨_, by rw [write, hwrite]; rfl⟩

/-- A class with at most 65535 members of each kind is written, and read as what it stands for. -/
theorem write_reads (h : draft.Stands outline) (hfields : outline.fields.length ≤ 65535)
    (hmethods : outline.methods.length ≤ 65535) :
    ∃ bytes, draft.write = .ok bytes ∧
      Reads ClassFile.reader bytes (outline.file draft.pool.frozen) := by
  obtain ⟨poolBytes, hwrite, hpool⟩ := PoolDraft.write_reads h.writable
  refine ⟨_, by rw [write, hwrite]; rfl, ?_⟩
  have hmembers := h.members_read hfields hmethods fun interfaces fields methods =>
    { outline.file draft.pool.frozen with interfaces, fields, methods }
  have hversion := h.version
  have haccess := h.access
  have hreader : Reads ClassFile.reader (u32 ClassFile.magic ++ (u16 0 ++ (u16 draft.majorVersion ++
      (poolBytes ++ (u16 draft.access.bits ++ (u16 draft.thisClass ++ (u16 draft.superClass ++
        memberBytes draft))))))) (outline.file draft.pool.frozen) := by
    refine (Reads.u32 ClassFile.magic).bind ?_
    rw [if_neg (by simp)]
    refine (Reads.u16 0).bind ((Reads.u16 draft.majorVersion).bind (hpool.bind ?_))
    refine (Reads.u16 draft.access.bits).bind ?_
    refine (Reads.u16 draft.thisClass).bind ((Reads.ofExcept h.thisClass).bind ?_)
    refine (Reads.u16 draft.superClass).bind ((Reads.ofExcept (superName_eq h.superClass)).bind ?_)
    rw [hversion, haccess]
    exact hmembers
  simpa [memberBytes] using hreader

end Stands

end ClassDraft

end ResourceMerge

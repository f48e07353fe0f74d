import Mathlib.Data.List.Forall2
import ResourceMerge.ClassFile.ClassDraft
import ResourceMerge.Proofs.BodyRoundTrip

/-! What a class under construction stands for. Its members are kept as slots of a pool that goes on
    growing, so their meaning is told in the pool as it is frozen now, and growth does not change
    it. The names of the two attributes have slots of their own: whenever a member needs one, the
    draft must know it. -/

namespace ResourceMerge

/-- A class without interfaces, told without slots. -/
structure Outline where
  name : String
  superName : String
  access : Access
  version : UInt16
  fields : List Field
  methods : List Method

namespace Outline

/-- The class as it is read, with the pool that it is read with. -/
def file (outline : Outline) (pool : ConstantPool) : ClassFile where
  minorVersion := 0
  majorVersion := outline.version
  pool := pool
  access := outline.access
  thisClass := outline.name
  superClass := some outline.superName
  interfaces := []
  fields := outline.fields
  methods := outline.methods

/-- The class with one more field. -/
def withField (outline : Outline) (field : Field) : Outline :=
  { outline with fields := outline.fields ++ [field] }

/-- The class with one more method. -/
def withMethod (outline : Outline) (method : Method) : Outline :=
  { outline with methods := outline.methods ++ [method] }

end Outline

namespace ClassDraft

/-- A field by its slots and the field itself. -/
structure FieldStands (pool : ConstantPool) (label : Option UInt16) (draft : FieldDraft)
    (field : Field) : Prop where
  access : draft.access = field.access
  name : pool.utf8 draft.name = .ok field.name
  descriptor : pool.utf8 draft.descriptor = .ok field.descriptor
  constant : Option.Rel (fun i v => pool.integer? i = .ok (some v)) draft.constant
    field.intConstant
  labelled : draft.constant.isSome → label.isSome

/-- A method by its slots and the method itself. -/
structure MethodStands (pool : ConstantPool) (label : Option UInt16) (draft : MethodDraft)
    (method : Method) : Prop where
  access : draft.access = method.access
  name : pool.utf8 draft.name = .ok method.name
  descriptor : pool.utf8 draft.descriptor = .ok method.descriptor
  body : method.body = some draft.body
  fits : draft.body.code.length ≤ 65535
  labelled : label.isSome

/-- A draft and the class it stands for. -/
structure Stands (draft : ClassDraft) (outline : Outline) : Prop where
  writable : ∀ c ∈ draft.pool.entries.toList, c.IsWritable
  version : draft.majorVersion = outline.version
  access : draft.access = outline.access
  thisClass : draft.pool.frozen.className draft.thisClass = .ok outline.name
  superClass : draft.pool.frozen.className draft.superClass = .ok outline.superName
  constantLabel : ∀ l ∈ draft.constantValueAttribute,
    draft.pool.frozen.utf8 l = .ok ClassFile.constantValueAttribute
  codeLabel : ∀ l ∈ draft.codeAttribute, draft.pool.frozen.utf8 l = .ok ClassFile.codeAttribute
  fields : List.Forall₂ (FieldStands draft.pool.frozen draft.constantValueAttribute)
    draft.fields.toList outline.fields
  methods : List.Forall₂ (MethodStands draft.pool.frozen draft.codeAttribute)
    draft.methods.toList outline.methods

/-! ### Growth -/

theorem FieldStands.grow {p q : ConstantPool} {label label' : Option UInt16} {draft : FieldDraft}
    {field : Field} (h : FieldStands p label draft field) (hp : p.Within q)
    (hlabel : label.isSome → label'.isSome) : FieldStands q label' draft field where
  access := h.access
  name := hp.utf8 h.name
  descriptor := hp.utf8 h.descriptor
  constant := by
    have := h.constant
    cases hd : draft.constant <;> cases hf : field.intConstant <;> rw [hd, hf] at this
    · exact .none
    · cases this
    · cases this
    · cases this with | some hv => exact .some (hp.integer? hv)
  labelled := hlabel ∘ h.labelled

theorem MethodStands.grow {p q : ConstantPool} {label label' : Option UInt16} {draft : MethodDraft}
    {method : Method} (h : MethodStands p label draft method) (hp : p.Within q)
    (hlabel : label.isSome → label'.isSome) : MethodStands q label' draft method where
  access := h.access
  name := hp.utf8 h.name
  descriptor := hp.utf8 h.descriptor
  body := h.body
  fits := h.fits
  labelled := hlabel h.labelled

namespace Stands

variable {draft : ClassDraft} {outline : Outline}

theorem withPool {pool : PoolDraft} (h : draft.Stands outline) (hgrows : draft.pool.Grows pool) :
    Stands { draft with pool := pool } outline where
  writable := hgrows.writable h.writable
  version := h.version
  access := h.access
  thisClass := hgrows.within.className h.thisClass
  superClass := hgrows.within.className h.superClass
  constantLabel := fun l hl => hgrows.within.utf8 (h.constantLabel l hl)
  codeLabel := fun l hl => hgrows.within.utf8 (h.codeLabel l hl)
  fields := h.fields.imp fun _ _ hf => hf.grow hgrows.within id
  methods := h.methods.imp fun _ _ hm => hm.grow hgrows.within id

theorem withConstantLabel {l : UInt16} (h : draft.Stands outline)
    (hl : draft.pool.frozen.utf8 l = .ok ClassFile.constantValueAttribute) :
    Stands { draft with constantValueAttribute := some l } outline where
  __ := h
  constantLabel := by rintro _ ⟨⟩; exact hl
  fields := h.fields.imp fun _ _ hf => hf.grow (.refl _) fun _ => rfl

theorem withCodeLabel {l : UInt16} (h : draft.Stands outline)
    (hl : draft.pool.frozen.utf8 l = .ok ClassFile.codeAttribute) :
    Stands { draft with codeAttribute := some l } outline where
  __ := h
  codeLabel := by rintro _ ⟨⟩; exact hl
  methods := h.methods.imp fun _ _ hm => hm.grow (.refl _) fun _ => rfl

theorem pushField {fieldDraft : FieldDraft} {field : Field} (h : draft.Stands outline)
    (hf : FieldStands draft.pool.frozen draft.constantValueAttribute fieldDraft field) :
    Stands { draft with fields := draft.fields.push fieldDraft } (outline.withField field) where
  __ := h
  fields := by
    rw [Array.toList_push]
    exact List.rel_append h.fields (.cons hf .nil)

theorem pushMethod {methodDraft : MethodDraft} {method : Method} (h : draft.Stands outline)
    (hm : MethodStands draft.pool.frozen draft.codeAttribute methodDraft method) :
    Stands { draft with methods := draft.methods.push methodDraft } (outline.withMethod method) where
  __ := h
  methods := by
    rw [Array.toList_push]
    exact List.rel_append h.methods (.cons hm .nil)

end Stands

end ClassDraft

end ResourceMerge

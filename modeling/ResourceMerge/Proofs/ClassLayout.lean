import ResourceMerge.ClassFile.Basic
import ResourceMerge.Proofs.PoolLayout

/-! The form of a class file, with all that the format has room for: any constant pool, interfaces,
    members with any attributes, and attributes of the class. An attribute is a label and the number
    of its bytes, so that a reader can step over those it does not know. Of the attributes of a
    field one kind is looked into, the slot of its constant, and of those of a method one, its body;
    a body ends in a table of handlers and in attributes of its own.

    Beside the form stands what it says: which layouts a reader must accept, and which class each of
    them describes. Both are told by what the constant pool holds, and not by how it is read. -/

namespace ResourceMerge

open Binary

/-! ### The form -/

/-- An attribute: the slot of its name, and its bytes. -/
structure Attribute where
  label : UInt16
  content : List UInt8
  deriving DecidableEq

namespace Attribute

def bytes (a : Attribute) : List UInt8 :=
  u16 a.label ++ (u32 (UInt32.ofNat a.content.length) ++ a.content)

/-- The length of an attribute has 32 bits. -/
def Fits (a : Attribute) : Prop := a.content.length < 4294967296

instance : DecidablePred Fits := fun a => inferInstanceAs (Decidable (a.content.length < _))

/-- A list of attributes behind its length. -/
def listBytes (attributes : List Attribute) : List UInt8 :=
  u16 (UInt16.ofNat attributes.length) ++ attributes.flatMap bytes

/-- The number of attributes has sixteen bits, and their lengths fit. -/
def ListFits (attributes : List Attribute) : Prop :=
  attributes.length ≤ 65535 ∧ ∀ a ∈ attributes, a.Fits

instance : DecidablePred ListFits := fun attributes =>
  inferInstanceAs (Decidable (attributes.length ≤ 65535 ∧ ∀ a ∈ attributes, a.Fits))

end Attribute

/-- An attribute of a member: of the kind that is looked into, or any other. -/
inductive MemberAttribute (α : Type) where
  | known (label : UInt16) (content : α)
  | other (a : Attribute)

namespace MemberAttribute

variable {α : Type}

/-- The attribute by its bytes. -/
def raw (write : α → List UInt8) : MemberAttribute α → Attribute
  | .known label content => ⟨label, write content⟩
  | .other a => a

/-- What is looked into. -/
def known? : MemberAttribute α → Option α
  | .known _ content => some content
  | .other _ => none

end MemberAttribute

/-- A member of a class: a field, with slots of constants, or a method, with bodies. -/
structure MemberLayout (α : Type) where
  access : UInt16
  name : UInt16
  descriptor : UInt16
  attributes : List (MemberAttribute α)

namespace MemberLayout

variable {α : Type}

def bytes (write : α → List UInt8) (m : MemberLayout α) : List UInt8 :=
  u16 m.access ++ (u16 m.name ++ (u16 m.descriptor ++
    Attribute.listBytes (m.attributes.map (MemberAttribute.raw write))))

/-- What the last of the attributes that are looked into says. -/
def last? (m : MemberLayout α) : Option α := (m.attributes.filterMap MemberAttribute.known?).getLast?

end MemberLayout

/-- A range of a body, where its handler begins, and the slot of the class that it catches. -/
structure Handler where
  first : UInt16
  last : UInt16
  target : UInt16
  catches : UInt16
  deriving DecidableEq

def Handler.bytes (h : Handler) : List UInt8 :=
  u16 h.first ++ (u16 h.last ++ (u16 h.target ++ u16 h.catches))

/-- The body of a method with all its parts. -/
structure BodyLayout where
  maxStack : UInt16
  maxLocals : UInt16
  code : List UInt8
  handlers : List Handler
  attributes : List Attribute

def BodyLayout.bytes (b : BodyLayout) : List UInt8 :=
  u16 b.maxStack ++ (u16 b.maxLocals ++ (u32 (UInt32.ofNat b.code.length) ++ (b.code ++
    (u16 (UInt16.ofNat b.handlers.length) ++ (b.handlers.flatMap Handler.bytes ++
      Attribute.listBytes b.attributes)))))

/-- A whole class file, slots told by their numbers. -/
structure ClassLayout where
  minorVersion : UInt16
  majorVersion : UInt16
  constants : List PoolEntry
  access : UInt16
  thisClass : UInt16
  superClass : UInt16
  interfaces : List UInt16
  fields : List (MemberLayout UInt16)
  methods : List (MemberLayout BodyLayout)
  attributes : List Attribute

namespace ClassLayout

/-- The constant pool of the class. -/
def pool (c : ClassLayout) : ConstantPool := .ofEntries c.constants

def bytes (c : ClassLayout) : List UInt8 :=
  u32 ClassFile.magic ++ (u16 c.minorVersion ++ (u16 c.majorVersion ++
    (ConstantPool.layout c.constants ++ (u16 c.access ++ (u16 c.thisClass ++ (u16 c.superClass ++
      (u16 (UInt16.ofNat c.interfaces.length) ++ c.interfaces.flatMap u16 ++
        (u16 (UInt16.ofNat c.fields.length) ++ c.fields.flatMap (MemberLayout.bytes u16) ++
          (u16 (UInt16.ofNat c.methods.length) ++
            c.methods.flatMap (MemberLayout.bytes BodyLayout.bytes) ++
              Attribute.listBytes c.attributes)))))))))

end ClassLayout

/-! ### What a reader must accept -/

/-- A body whose parts fit their counts. -/
structure BodyLayout.WellFormed (b : BodyLayout) : Prop where
  handlers : b.handlers.length ≤ 65535
  attributes : Attribute.ListFits b.attributes

/-- An attribute of a member in a pool: its name is that of the kind looked into exactly if it is of
    that kind, and what it then holds is good. -/
def MemberAttribute.WellFormed {α : Type} (pool : ConstantPool) (label : String) (good : α → Prop) :
    MemberAttribute α → Prop
  | .known i content => pool.HoldsText i label ∧ good content
  | .other a => ∃ name, pool.HoldsText a.label name ∧ name ≠ label

/-- A member whose names are texts and whose attributes are well-formed and fit. -/
structure MemberLayout.WellFormed {α : Type} (pool : ConstantPool) (label : String)
    (write : α → List UInt8) (good : α → Prop) (m : MemberLayout α) : Prop where
  name : ∃ s, pool.HoldsText m.name s
  descriptor : ∃ s, pool.HoldsText m.descriptor s
  fits : Attribute.ListFits (m.attributes.map (MemberAttribute.raw write))
  attributes : ∀ a ∈ m.attributes, a.WellFormed pool label good

/-- A class whose lists and lengths fit, and whose slots hold what they are used as. -/
structure ClassLayout.WellFormed (c : ClassLayout) : Prop where
  constants : ∀ entry ∈ c.constants, entry.Fits
  slots : c.pool.size ≤ 65535
  thisClass : ∃ name, c.pool.HoldsClass c.thisClass name
  superClass : c.superClass ≠ 0 → ∃ name, c.pool.HoldsClass c.superClass name
  interfaceCount : c.interfaces.length ≤ 65535
  interfaces : ∀ i ∈ c.interfaces, ∃ name, c.pool.HoldsClass i name
  fieldCount : c.fields.length ≤ 65535
  fields : ∀ f ∈ c.fields, f.WellFormed c.pool ClassFile.constantValueAttribute u16
    fun i => ∃ constant, c.pool.Holds i constant
  methodCount : c.methods.length ≤ 65535
  methods : ∀ m ∈ c.methods, m.WellFormed c.pool ClassFile.codeAttribute BodyLayout.bytes
    BodyLayout.WellFormed
  attributes : Attribute.ListFits c.attributes

/-! ### What a layout says -/

/-- The field has the words and names of the layout, and the integer to which the last of its
    constants refers, if that is an integer. -/
structure MemberLayout.DescribesField (pool : ConstantPool) (m : MemberLayout UInt16)
    (field : Field) : Prop where
  access : field.access = ⟨m.access⟩
  name : pool.HoldsText m.name field.name
  descriptor : pool.HoldsText m.descriptor field.descriptor
  constant : ∀ v, field.intConstant = some v ↔ ∃ i ∈ m.last?, pool.Holds i (.integer v)

/-- The method has the words and names of the layout, and of its last body the limits and the code. -/
structure MemberLayout.DescribesMethod (pool : ConstantPool) (m : MemberLayout BodyLayout)
    (method : Method) : Prop where
  access : method.access = ⟨m.access⟩
  name : pool.HoldsText m.name method.name
  descriptor : pool.HoldsText m.descriptor method.descriptor
  body : method.body = m.last?.map fun b => ⟨b.maxStack, b.maxLocals, b.code⟩

/-- The class that the layout stands for. -/
structure ClassLayout.Describes (c : ClassLayout) (file : ClassFile) : Prop where
  minorVersion : file.minorVersion = c.minorVersion
  majorVersion : file.majorVersion = c.majorVersion
  pool : file.pool = c.pool
  access : file.access = ⟨c.access⟩
  thisClass : c.pool.HoldsClass c.thisClass file.thisClass
  noSuperClass : file.superClass = none ↔ c.superClass = 0
  superClass : ∀ name ∈ file.superClass, c.pool.HoldsClass c.superClass name
  interfaces : List.Forall₂ c.pool.HoldsClass c.interfaces file.interfaces
  fields : List.Forall₂ (MemberLayout.DescribesField c.pool) c.fields file.fields
  methods : List.Forall₂ (MemberLayout.DescribesMethod c.pool) c.methods file.methods

/-! ### A layout describes one class at most -/

section Unique

variable {pool : ConstantPool}

theorem MemberLayout.DescribesField.unique {m : MemberLayout UInt16} {f g : Field}
    (hf : m.DescribesField pool f) (hg : m.DescribesField pool g) : f = g := by
  obtain ⟨_, _, _, _⟩ := f
  obtain ⟨_, _, _, _⟩ := g
  obtain ⟨rfl, hname, hdescriptor, hconstant⟩ := hf
  obtain ⟨rfl, hname', hdescriptor', hconstant'⟩ := hg
  simp only [Field.mk.injEq, true_and]
  exact ⟨hname.unique hname', hdescriptor.unique hdescriptor',
    Option.ext fun v => (hconstant v).trans (hconstant' v).symm⟩

theorem MemberLayout.DescribesMethod.unique {m : MemberLayout BodyLayout} {f g : Method}
    (hf : m.DescribesMethod pool f) (hg : m.DescribesMethod pool g) : f = g := by
  obtain ⟨_, _, _, _⟩ := f
  obtain ⟨_, _, _, _⟩ := g
  obtain ⟨rfl, hname, hdescriptor, rfl⟩ := hf
  obtain ⟨rfl, hname', hdescriptor', rfl⟩ := hg
  simp only [Method.mk.injEq, true_and, and_true]
  exact ⟨hname.unique hname', hdescriptor.unique hdescriptor'⟩

theorem ClassLayout.Describes.unique {c : ClassLayout} {file other : ClassFile}
    (h : c.Describes file) (h' : c.Describes other) : file = other := by
  obtain ⟨_, _, _, _, _, super, _, _, _⟩ := file
  obtain ⟨_, _, _, _, _, super', _, _, _⟩ := other
  obtain ⟨rfl, rfl, rfl, rfl, hthis, hnone, hsuper, hinterfaces, hfields, hmethods⟩ := h
  obtain ⟨rfl, rfl, rfl, rfl, hthis', hnone', hsuper', hinterfaces', hfields', hmethods'⟩ := h'
  have hsame : super = super' := by
    cases super with
    | none => exact (hnone'.2 (hnone.1 rfl)).symm
    | some name =>
      cases super' with
      | none => exact hnone.2 (hnone'.1 rfl)
      | some name' => exact congrArg some ((hsuper name rfl).unique (hsuper' name' rfl))
  simp only [ClassFile.mk.injEq, true_and]
  refine ⟨hthis.unique hthis', hsame, ?_, ?_, ?_⟩
  · exact List.right_unique_forall₂' (fun _ _ _ h h' => h.unique h') hinterfaces hinterfaces'
  · exact List.right_unique_forall₂' (fun _ _ _ h h' => h.unique h') hfields hfields'
  · exact List.right_unique_forall₂' (fun _ _ _ h h' => h.unique h') hmethods hmethods'

end Unique

end ResourceMerge

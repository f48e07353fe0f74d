import ResourceMerge.Proofs.ClassLayout
import ResourceMerge.Proofs.ClassReading

/-! Every class file is read as the class that its layout describes, whatever the layout holds that
    the reader does not look into and whatever bytes follow. The reader goes through the lists of
    the form in their order; what carries it over each attribute, known or not, is that the length
    in front of it is the length of its bytes. -/

namespace ResourceMerge

open Binary

/-! ### Attributes -/

namespace Attribute

theorem length_toNat {a : Attribute} (h : a.Fits) :
    (UInt32.ofNat a.content.length).toNat = a.content.length := by
  rw [UInt32.toNat_ofNat']
  exact Nat.mod_eq_of_lt h

theorem count_toNat {attributes : List Attribute} (h : ListFits attributes) :
    (UInt16.ofNat attributes.length).toNat = attributes.length := by
  rw [UInt16.toNat_ofNat']
  exact Nat.mod_eq_of_lt (Nat.lt_succ_of_le h.1)

/-- An attribute is stepped over, its name unread. -/
theorem skipped_reads {a : Attribute} (h : a.Fits) :
    Reads (do Reader.skip 2; Reader.skip (← Reader.u32).toNat) a.bytes () := by
  have hcontent := Reads.skip a.content
  rw [← length_toNat h] at hcontent
  exact (Reads.skip (u16 a.label)).bind ((Reads.u32 _).bind hcontent)

theorem skipAttributes_reads {attributes : List Attribute} (h : ListFits attributes) :
    Reads ClassFile.skipAttributes (listBytes attributes) () := by
  refine (Reads.u16 _).bind ?_
  have hall : List.Forall₂ (fun a _ => Reads (do Reader.skip 2; Reader.skip (← Reader.u32).toNat)
      (bytes a) ()) attributes (attributes.map fun _ => ()) := by
    rw [List.forall₂_map_right_iff, List.forall₂_same]
    exact fun a ha => skipped_reads (h.2 a ha)
  have htimes := (Reads.times hall).map fun _ => ()
  rwa [List.length_map, ← count_toNat h] at htimes

end Attribute

/-- The attributes of a member: those of the kind looked into update a value, the last of them for
    good, and all others leave it alone. -/
theorem ClassFile.foldAttributes_members {α β : Type} {pool : ConstantPool} {label : String}
    {write : α → List UInt8} {good : α → Prop}
    (interpret : String → List UInt8 → Option β → Except Error (Option β)) (value : α → Option β)
    (hknown : ∀ content, good content → (write content).length < 4294967296 →
      ∀ before, interpret label (write content) before = .ok (value content))
    (hother : ∀ name bytes before, name ≠ label → interpret name bytes before = .ok before) :
    ∀ (attributes : List (MemberAttribute α)) (before : Option β),
      (∀ a ∈ attributes, a.WellFormed pool label good ∧ (a.raw write).Fits) →
      Reads (foldAttributes pool interpret attributes.length before)
        ((attributes.map (MemberAttribute.raw write)).flatMap Attribute.bytes)
        (((attributes.filterMap MemberAttribute.known?).getLast?.map value).getD before)
  | [], before, _ => Reads.pure before
  | .known i content :: attributes, before, h => by
    rw [List.forall_mem_cons] at h
    obtain ⟨⟨⟨hlabel, hgood⟩, hfits⟩, hattributes⟩ := h
    have hrest := foldAttributes_members interpret value hknown hother attributes (value content) hattributes
    have hread := foldAttributes_reads (ConstantPool.utf8_iff_holds.2 hlabel)
      (Attribute.length_toNat hfits) (hknown content hgood hfits before) hrest
    rw [List.filterMap_cons_some (f := MemberAttribute.known?) (b := content) rfl,
      List.getLast?_cons]
    cases hlast : (attributes.filterMap MemberAttribute.known?).getLast? with
    | none => simpa [hlast, Attribute.bytes, MemberAttribute.raw] using hread
    | some later => simpa [hlast, Attribute.bytes, MemberAttribute.raw] using hread
  | .other a :: attributes, before, h => by
    rw [List.forall_mem_cons] at h
    obtain ⟨⟨⟨name, hname, hne⟩, hfits⟩, hattributes⟩ := h
    have hrest := foldAttributes_members interpret value hknown hother attributes before hattributes
    have hread := foldAttributes_reads (ConstantPool.utf8_iff_holds.2 hname)
      (Attribute.length_toNat hfits) (hother name a.content before hne) hrest
    rw [List.filterMap_cons_none rfl]
    simpa [Attribute.bytes, MemberAttribute.raw] using hread

/-! ### Members -/

namespace BodyLayout

theorem length_handlers (handlers : List Handler) :
    (handlers.flatMap Handler.bytes).length = handlers.length * 8 := by
  induction handlers with
  | nil => rfl
  | cons h handlers ih =>
    rw [List.flatMap_cons, List.length_append, ih, List.length_cons]
    simp [Handler.bytes, u16]
    omega

theorem length_code_le (b : BodyLayout) : b.code.length ≤ b.bytes.length := by
  simp only [bytes, List.length_append]
  omega

/-- A body is read to its end; handlers and nested attributes are stepped over. -/
theorem reads {b : BodyLayout} (h : b.WellFormed) (hfits : b.bytes.length < 4294967296) :
    Reads ClassFile.readBody b.bytes ⟨b.maxStack, b.maxLocals, b.code⟩ := by
  have hsize : (UInt32.ofNat b.code.length).toNat = b.code.length := by
    rw [UInt32.toNat_ofNat']
    exact Nat.mod_eq_of_lt (Nat.lt_of_le_of_lt b.length_code_le hfits)
  have hcount : (UInt16.ofNat b.handlers.length).toNat = b.handlers.length := by
    rw [UInt16.toNat_ofNat']
    exact Nat.mod_eq_of_lt (Nat.lt_succ_of_le h.handlers)
  have hcode := Reads.take b.code
  rw [← hsize] at hcode
  have hhandlers := Reads.skip (b.handlers.flatMap Handler.bytes)
  rw [length_handlers, ← hcount] at hhandlers
  have hattributes := (Attribute.skipAttributes_reads h.attributes).map fun _ =>
    Body.mk b.maxStack b.maxLocals b.code
  refine (Reads.u16 _).bind ((Reads.u16 _).bind ((Reads.u32 _).bind (hcode.bind ?_)))
  exact (Reads.u16 _).bind (hhandlers.bind hattributes)

end BodyLayout

namespace ConstantPool

variable {pool : ConstantPool} {i : UInt16}

/-- The integer in a slot, if it holds one. -/
def integerAt (pool : ConstantPool) (i : UInt16) : Option Int32 :=
  pool.slots[i.toNat]?.join.bind Constant.integer?

theorem integerAt_eq_some {v : Int32} :
    pool.integerAt i = some v ↔ pool.Holds i (.integer v) := by
  simp only [integerAt, Option.bind_eq_some_iff, Option.join_eq_some_iff]
  constructor
  · rintro ⟨c, hc, h⟩
    cases c <;> cases h
    exact hc
  · exact fun h => ⟨_, h, rfl⟩

theorem integer?_eq_integerAt {c : Constant} (h : pool.Holds i c) :
    pool.integer? i = .ok (pool.integerAt i) := by
  refine integer?_iff_holds.2 ⟨c, h, ?_⟩
  rw [integerAt, show pool.slots[i.toNat]? = some (some c) from h]
  rfl

end ConstantPool

namespace MemberLayout

variable {pool : ConstantPool}

theorem attributes_fit {α : Type} {label : String} {write : α → List UInt8} {good : α → Prop}
    {m : MemberLayout α} (h : m.WellFormed pool label write good) :
    ∀ a ∈ m.attributes, a.WellFormed pool label good ∧ (a.raw write).Fits :=
  fun a ha => ⟨h.attributes a ha, h.fits.2 _ (List.mem_map_of_mem ha)⟩

theorem count_toNat {α : Type} {label : String} {write : α → List UInt8} {good : α → Prop}
    {m : MemberLayout α} (h : m.WellFormed pool label write good) :
    (UInt16.ofNat (m.attributes.map (MemberAttribute.raw write)).length).toNat
      = m.attributes.length := by
  rw [Attribute.count_toNat h.fits, List.length_map]

/-- A constant is looked up, whatever was known before. -/
theorem constantOf_known {i : UInt16} (h : ∃ c, pool.Holds i c) (before : Option Int32) :
    ClassFile.constantOf pool ClassFile.constantValueAttribute (u16 i) before
      = .ok (pool.integerAt i) := by
  obtain ⟨c, hc⟩ := h
  rw [ClassFile.constantOf, if_pos rfl, (Reads.u16 i).read]
  exact ConstantPool.integer?_eq_integerAt hc

theorem reads_field {m : MemberLayout UInt16}
    (h : m.WellFormed pool ClassFile.constantValueAttribute u16 fun i => ∃ c, pool.Holds i c) :
    ∃ field, m.DescribesField pool field ∧
      Reads (ClassFile.readField pool) (m.bytes u16) field := by
  obtain ⟨name, hname⟩ := h.name
  obtain ⟨descriptor, hdescriptor⟩ := h.descriptor
  have hfold := ClassFile.foldAttributes_members (ClassFile.constantOf pool) pool.integerAt
    (fun _ hgood _ before => constantOf_known hgood before) (fun _ _ _ hne => if_neg hne)
    m.attributes none (attributes_fit h)
  rw [← count_toNat h] at hfold
  refine ⟨_, ⟨rfl, hname, hdescriptor, fun v => ?_⟩, ClassFile.readMember_reads Field.mk
    (ConstantPool.utf8_iff_holds.2 hname) (ConstantPool.utf8_iff_holds.2 hdescriptor) hfold⟩
  simp only [last?, Option.mem_def, ← ConstantPool.integerAt_eq_some]
  cases (m.attributes.filterMap MemberAttribute.known?).getLast? <;> simp

/-- A body is read in its place, whatever was known before. -/
theorem bodyOf_known {b : BodyLayout} (h : b.WellFormed) (hfits : b.bytes.length < 4294967296)
    (before : Option Body) :
    ClassFile.bodyOf ClassFile.codeAttribute b.bytes before
      = .ok (some ⟨b.maxStack, b.maxLocals, b.code⟩) := by
  rw [ClassFile.bodyOf, if_pos rfl, (b.reads h hfits).read]
  rfl

theorem reads_method {m : MemberLayout BodyLayout}
    (h : m.WellFormed pool ClassFile.codeAttribute BodyLayout.bytes BodyLayout.WellFormed) :
    ∃ method, m.DescribesMethod pool method ∧
      Reads (ClassFile.readMethod pool) (m.bytes BodyLayout.bytes) method := by
  obtain ⟨name, hname⟩ := h.name
  obtain ⟨descriptor, hdescriptor⟩ := h.descriptor
  have hfold := ClassFile.foldAttributes_members ClassFile.bodyOf
    (fun b : BodyLayout => some (Body.mk b.maxStack b.maxLocals b.code))
    (fun _ => bodyOf_known) (fun _ _ _ hne => if_neg hne) m.attributes none (attributes_fit h)
  rw [← count_toNat h] at hfold
  refine ⟨_, ⟨rfl, hname, hdescriptor, ?_⟩, ClassFile.readMember_reads Method.mk
    (ConstantPool.utf8_iff_holds.2 hname) (ConstantPool.utf8_iff_holds.2 hdescriptor) hfold⟩
  simp only [last?]
  cases (m.attributes.filterMap MemberAttribute.known?).getLast? <;> rfl

end MemberLayout

/-! ### Classes -/

namespace ClassLayout

/-- A list whose items are read, each as something that fits it. -/
theorem readCounted_described {α γ : Type} {item : Reader α} {bytes : γ → List UInt8}
    {items : List γ} (describes : γ → α → Prop) (hlength : items.length ≤ 65535)
    (h : ∀ x ∈ items, ∃ a, describes x a ∧ Reads item (bytes x) a) :
    ∃ values, List.Forall₂ describes items values ∧
      Reads (ClassFile.readCounted item)
        (u16 (UInt16.ofNat items.length) ++ items.flatMap bytes) values := by
  obtain ⟨values, hvalues⟩ : ∃ values, List.Forall₂ (fun x a => describes x a ∧
      Reads item (bytes x) a) items values := by
    clear hlength
    induction items with
    | nil => exact ⟨[], .nil⟩
    | cons x items ih =>
      rw [List.forall_mem_cons] at h
      obtain ⟨a, ha⟩ := h.1
      obtain ⟨values, hvalues⟩ := ih h.2
      exact ⟨a :: values, .cons ha hvalues⟩
  refine ⟨values, hvalues.imp fun _ _ h => h.1, ?_⟩
  exact ClassFile.readCounted_reads (hvalues.imp fun _ _ h => h.2) (hvalues.length_eq ▸ hlength)

/-- The name of a class is read through its slot. -/
theorem reads_class {pool : ConstantPool} {i : UInt16} (h : ∃ name, pool.HoldsClass i name) :
    ∃ name, pool.HoldsClass i name ∧
      Reads (do Reader.ofExcept (pool.className (← Reader.u16))) (u16 i) name := by
  obtain ⟨name, hname⟩ := h
  have hslot : Reads (Reader.ofExcept (pool.className i)) [] name :=
    Reads.ofExcept (ConstantPool.className_iff_holds.2 hname)
  have hread := (Reads.u16 i).bind (f := fun i => Reader.ofExcept (pool.className i)) hslot
  rw [List.append_nil] at hread
  exact ⟨name, hname, hread⟩

/-- Slot zero stands for no superclass. -/
theorem superName_described {c : ClassLayout} (h : c.WellFormed) :
    ∃ name, ClassFile.superName c.pool c.superClass = .ok name ∧
      (name = none ↔ c.superClass = 0) ∧ ∀ n ∈ name, c.pool.HoldsClass c.superClass n := by
  by_cases hzero : c.superClass = 0
  · exact ⟨none, if_pos hzero, by simp [hzero], by simp⟩
  · obtain ⟨name, hname⟩ := h.superClass hzero
    refine ⟨some name, ?_, by simp [hzero], by simpa using hname⟩
    rw [ClassFile.superName, if_neg hzero, ConstantPool.className_iff_holds.2 hname]
    rfl

/-- The whole form is read, and nothing behind it. -/
theorem reads {c : ClassLayout} (h : c.WellFormed) :
    ∃ file, c.Describes file ∧ Reads ClassFile.reader c.bytes file := by
  have hpool := ConstantPool.layout_reads h.constants h.slots
  obtain ⟨this, hthis⟩ := h.thisClass
  obtain ⟨super, hsuper, hnone, hsome⟩ := superName_described h
  obtain ⟨interfaces, hinterfaces, hreadInterfaces⟩ :=
    readCounted_described c.pool.HoldsClass h.interfaceCount fun i hi => reads_class (h.interfaces i hi)
  obtain ⟨fields, hfields, hreadFields⟩ := readCounted_described _ h.fieldCount
    fun f hf => MemberLayout.reads_field (h.fields f hf)
  obtain ⟨methods, hmethods, hreadMethods⟩ := readCounted_described _ h.methodCount
    fun m hm => MemberLayout.reads_method (h.methods m hm)
  let file : ClassFile := ⟨c.minorVersion, c.majorVersion, c.pool, ⟨c.access⟩, this, super,
    interfaces, fields, methods⟩
  refine ⟨file, ⟨rfl, rfl, rfl, rfl, hthis, hnone, hsome, hinterfaces, hfields, hmethods⟩, ?_⟩
  have hskip := (Attribute.skipAttributes_reads h.attributes).map fun _ => file
  refine (Reads.u32 ClassFile.magic).bind ?_
  rw [if_neg (by simp)]
  refine (Reads.u16 _).bind ((Reads.u16 _).bind (hpool.bind ((Reads.u16 _).bind ?_)))
  refine (Reads.u16 _).bind ((Reads.ofExcept (ConstantPool.className_iff_holds.2 hthis)).bind ?_)
  refine (Reads.u16 _).bind ((Reads.ofExcept hsuper).bind ?_)
  exact hreadInterfaces.bind (hreadFields.bind (hreadMethods.bind hskip))

/-- A well-formed layout describes one class, and is read as that class whatever follows it. -/
theorem ofBytes_describes {c : ClassLayout} (h : c.WellFormed) (trailing : List UInt8) :
    ∃ file, ClassFile.ofBytes (c.bytes ++ trailing) = .ok file ∧
      ∀ other, c.Describes other ↔ other = file := by
  obtain ⟨file, hfile, hread⟩ := reads h
  refine ⟨file, hread.read_append trailing, fun other => ⟨fun hother => hother.unique hfile, ?_⟩⟩
  rintro rfl
  exact hfile

/-- A class with an entry of two slots, a field with two constants and an attribute between them, a
    body with a handler and an attribute, and attributes of the class. -/
def sample : ClassLayout where
  minorVersion := 3
  majorVersion := 52
  constants := [.utf8 (Text.utf8 "R"), .classRef 1, .utf8 (Text.utf8 "A"), .classRef 3, .long 7,
    .utf8 (Text.utf8 "ConstantValue"), .integer 9, .utf8 (Text.utf8 "Code"), .invokeDynamic 0 1]
  access := 33
  thisClass := 2
  superClass := 4
  interfaces := [4, 2]
  fields := [⟨25, 1, 3, [.known 7 5, .other ⟨3, [1, 2, 3]⟩, .known 7 8]⟩]
  methods := [⟨8, 3, 1, [.known 9 ⟨1, 2, [177], [⟨0, 1, 0, 2⟩], [⟨999, [1]⟩]⟩]⟩]
  attributes := [⟨500, [0]⟩]

theorem wellFormed_sample : sample.WellFormed where
  constants := by decide
  slots := by decide
  thisClass := ⟨"R", 1, by decide +kernel, by decide +kernel⟩
  superClass := fun _ => ⟨"A", 3, by decide +kernel, by decide +kernel⟩
  interfaceCount := by decide
  interfaces := by
    change ∀ i ∈ [(4 : UInt16), 2], _
    rw [List.forall_mem_cons, List.forall_mem_singleton]
    exact ⟨⟨"A", 3, by decide +kernel, by decide +kernel⟩,
      ⟨"R", 1, by decide +kernel, by decide +kernel⟩⟩
  fieldCount := by decide
  fields := by
    refine List.forall_mem_singleton.2 ⟨⟨"R", by decide +kernel⟩, ⟨"A", by decide +kernel⟩,
      by decide, ?_⟩
    simp only [List.forall_mem_cons]
    exact ⟨⟨by decide +kernel, .long 7, by decide +kernel⟩, ⟨"A", by decide +kernel, by decide⟩,
      ⟨by decide +kernel, .integer 9, by decide +kernel⟩, nofun⟩
  methodCount := by decide
  methods := by
    refine List.forall_mem_singleton.2 ⟨⟨"A", by decide +kernel⟩, ⟨"R", by decide +kernel⟩,
      by decide, ?_⟩
    exact List.forall_mem_singleton.2 ⟨by decide +kernel, by decide, by decide⟩
  attributes := by decide

/-- The last constant counts, and the body without its handler and attribute. -/
theorem ofBytes_describes_sample :
    sample.WellFormed ∧ ∃ file, ClassFile.ofBytes (sample.bytes ++ [1, 2]) = .ok file ∧
      sample.Describes file ∧ file.thisClass = "R" ∧ file.superClass = some "A" ∧
      file.interfaces = ["A", "R"] ∧ file.fields = [⟨⟨25⟩, "R", "A", some 9⟩] ∧
      file.methods = [⟨⟨8⟩, "A", "R", some ⟨1, 2, [177]⟩⟩] := by
  have hparts : (ClassFile.ofBytes (sample.bytes ++ [1, 2])).toOption.any (fun file =>
      file.thisClass = "R" ∧ file.superClass = some "A" ∧ file.interfaces = ["A", "R"] ∧
        file.fields = [⟨⟨25⟩, "R", "A", some 9⟩] ∧
        file.methods = [⟨⟨8⟩, "A", "R", some ⟨1, 2, [177]⟩⟩]) = true := by
    decide +kernel
  obtain ⟨file, hread, hdescribes⟩ := ofBytes_describes wellFormed_sample [1, 2]
  rw [hread] at hparts
  exact ⟨wellFormed_sample, file, hread, (hdescribes file).2 rfl, of_decide_eq_true hparts⟩

end ClassLayout

end ResourceMerge

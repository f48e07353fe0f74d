import ResourceMerge.Proofs.ClassDecoding
import ResourceMerge.Proofs.PoolSlots

/-! The fields of a class file, told by its bytes. A class file opens with its constant pool, its own
    names and its interfaces, and then come the fields, each of them three words and a list of
    attributes that say how long they are. Every byte string that is read as a class has such an
    opening, whatever its attributes hold; and from whatever opening a class is read, the names of
    its fields are the texts in the slots that the opening gives for them. -/

namespace ResourceMerge

namespace Binary

variable {α β γ : Type} {bytes : List UInt8} {pc : Nat}

/-! ### Readers over bytes of a known form -/

/-- If `r` succeeds where these bytes stand, it takes exactly them, and its result is good. -/
def Covers (r : Reader α) (bytes : List UInt8) (good : α → Prop) : Prop :=
  ∀ rest pc a c, r ⟨bytes ++ rest, pc⟩ = .ok a c → c = ⟨rest, pc + bytes.length⟩ ∧ good a

namespace Covers

theorem pure {good : α → Prop} {a : α} (h : good a) : Covers (pure a) [] good := by
  rintro rest pc _ _ ⟨⟩
  exact ⟨rfl, h⟩

theorem of_reads {r : Reader α} {a : α} (h : Reads r bytes a) : Covers r bytes (· = a) := by
  intro rest pc b c hrun
  rw [h rest pc] at hrun
  cases hrun
  exact ⟨rfl, rfl⟩

theorem ofExcept (x : Except Error α) : Covers (Reader.ofExcept x) [] (x = .ok ·) := by
  cases x with
  | ok a => exact pure rfl
  | error e => nofun

/-- What is known of a success behind such bytes. -/
theorem run_bind {r : Reader α} {f : α → Reader β} {good : α → Prop} {rest : List UInt8} {b : β}
    {c : Cursor} (h : Covers r bytes good) (hrun : (r >>= f) ⟨bytes ++ rest, pc⟩ = .ok b c) :
    ∃ a, good a ∧ f a ⟨rest, pc + bytes.length⟩ = .ok b c := by
  obtain ⟨a, middle, hmiddle, hrun⟩ := bind_eq_ok.1 hrun
  obtain ⟨rfl, ha⟩ := h rest pc a middle hmiddle
  exact ⟨a, ha, hrun⟩

theorem bind {r : Reader α} {f : α → Reader β} {xs ys : List UInt8} {good : α → Prop}
    {good' : β → Prop} (h : Covers r xs good) (hf : ∀ a, good a → Covers (f a) ys good') :
    Covers (r >>= f) (xs ++ ys) good' := by
  intro rest pc b c hrun
  rw [List.append_assoc] at hrun
  obtain ⟨a, ha, hrun⟩ := h.run_bind hrun
  obtain ⟨rfl, hb⟩ := hf a ha rest _ b c hrun
  rw [List.length_append, Nat.add_assoc]
  exact ⟨rfl, hb⟩

theorem mono {r : Reader α} {good good' : α → Prop} (h : Covers r bytes good)
    (hgood : ∀ a, good a → good' a) : Covers r bytes good' :=
  fun rest pc a c hrun => (h rest pc a c hrun).imp_right (hgood a)

theorem u16 (v : UInt16) : Covers Reader.u16 (Binary.u16 v) (· = v) := of_reads (Reads.u16 v)

theorem repeatOnto {r : Reader α} {form : γ → List UInt8} {good : γ → α → Prop} :
    ∀ {items : List γ} (done : List α), (∀ x ∈ items, Covers r (form x) (good x)) →
      Covers (Reader.repeatOnto r done items.length) (items.flatMap form)
        fun found => ∃ later, found = done.reverse ++ later ∧ List.Forall₂ good items later
  | [], done, _ => pure ⟨[], by simp, .nil⟩
  | x :: items, done, h => by
    rw [List.forall_mem_cons] at h
    refine h.1.bind fun a ha => (repeatOnto (a :: done) h.2).mono ?_
    rintro _ ⟨later, rfl, hlater⟩
    exact ⟨a :: later, by simp, .cons ha hlater⟩

end Covers

/-- A list of items behind its length. -/
def counted (form : γ → List UInt8) (items : List γ) : List UInt8 :=
  u16 (UInt16.ofNat items.length) ++ items.flatMap form

/-- A list is read item by item. -/
theorem Covers.readCounted {r : Reader α} {form : γ → List UInt8} {good : γ → α → Prop}
    {items : List γ} (hlength : items.length ≤ 65535) (h : ∀ x ∈ items, Covers r (form x) (good x)) :
    Covers (ClassFile.readCounted r) (counted form items) (List.Forall₂ good items) := by
  refine (Covers.u16 _).bind ?_
  rintro _ rfl
  rw [UInt16.toNat_ofNat', Nat.mod_eq_of_lt (Nat.lt_succ_of_le hlength)]
  refine (Covers.repeatOnto [] h).mono ?_
  rintro _ ⟨later, rfl, hlater⟩
  exact hlater

/-- Of a reader that accepts only forms, the repetition accepts only forms in sequence. -/
theorem exists_forms_of_repeated {r : Reader α} (hr : Framed r) {form : γ → List UInt8}
    {good : γ → Prop}
    (h : ∀ {pc bytes a}, Accepts r pc bytes a → ∃ x, good x ∧ bytes = form x) :
    ∀ {n : Nat} {done : List α} {pc bytes found}, Accepts (Reader.repeatOnto r done n) pc bytes found →
      ∃ items : List γ, items.length = n ∧ (∀ x ∈ items, good x) ∧ bytes = items.flatMap form
  | 0, _, _, _, _, haccepts => ⟨[], rfl, by simp, (accepts_pure.1 haccepts).1⟩
  | n + 1, _, _, _, _, haccepts => by
    obtain ⟨_, _, a, rfl, ha, hrest⟩ := (accepts_bind hr).1 haccepts
    obtain ⟨x, hx, rfl⟩ := h ha
    obtain ⟨items, hlength, hitems, rfl⟩ := exists_forms_of_repeated hr h hrest
    exact ⟨x :: items, congrArg (· + 1) hlength, List.forall_mem_cons.2 ⟨hx, hitems⟩, rfl⟩

theorem exists_counted {r : Reader α} (hr : Framed r) {form : γ → List UInt8} {good : γ → Prop}
    (h : ∀ {pc bytes a}, Accepts r pc bytes a → ∃ x, good x ∧ bytes = form x) {found : List α}
    (haccepts : Accepts (ClassFile.readCounted r) pc bytes found) :
    ∃ items : List γ, items.length ≤ 65535 ∧ (∀ x ∈ items, good x) ∧ bytes = counted form items := by
  obtain ⟨count, _, rfl, hrest⟩ := accepts_u16_bind.1 haccepts
  obtain ⟨items, hlength, hitems, rfl⟩ := exists_forms_of_repeated hr h hrest
  have hbound := count.toNat_lt
  refine ⟨items, by omega, hitems, ?_⟩
  rw [counted, hlength, UInt16.ofNat_toNat]

end Binary

open Binary

/-! ### The form of an opening -/

/-- A field as it stands in a class file, its attributes not looked into. -/
structure FieldForm where
  access : UInt16
  name : UInt16
  descriptor : UInt16
  attributes : List Attribute

namespace FieldForm

def bytes (f : FieldForm) : List UInt8 :=
  u16 f.access ++ (u16 f.name ++ (u16 f.descriptor ++ Attribute.listBytes f.attributes))

def Fits (f : FieldForm) : Prop := Attribute.ListFits f.attributes

instance : DecidablePred Fits := fun f => inferInstanceAs (Decidable (Attribute.ListFits f.attributes))

end FieldForm

/-- A class file up to its last field. -/
structure ClassOpening where
  minorVersion : UInt16
  majorVersion : UInt16
  slots : UInt16
  constants : List PoolEntry
  access : UInt16
  thisClass : UInt16
  superClass : UInt16
  interfaces : List UInt16
  fields : List FieldForm

namespace ClassOpening

def bytes (o : ClassOpening) : List UInt8 :=
  u32 ClassFile.magic ++ (u16 o.minorVersion ++ (u16 o.majorVersion ++
    (ConstantPool.written o.slots o.constants ++ (u16 o.access ++ (u16 o.thisClass ++
      (u16 o.superClass ++ (counted u16 o.interfaces ++ counted FieldForm.bytes o.fields)))))))

/-- All lists and lengths are what the numbers in front of them say. -/
structure Fits (o : ClassOpening) : Prop where
  constants : ∀ entry ∈ o.constants, entry.Fits
  slots : ConstantPool.Announces o.slots o.constants
  interfaces : o.interfaces.length ≤ 65535
  fieldCount : o.fields.length ≤ 65535
  fields : ∀ f ∈ o.fields, f.Fits

end ClassOpening

/-! ### Fields of a form -/

namespace ClassFile

variable {pool : ConstantPool} {pc : Nat} {bytes : List UInt8}

/-- Of attributes it does not matter here what is made of them. -/
theorem covers_foldAttributes {α : Type} (interpret : String → List UInt8 → α → Except Error α) :
    ∀ {attributes : List Attribute} (before : α), (∀ a ∈ attributes, a.Fits) →
      Covers (foldAttributes pool interpret attributes.length before)
        (attributes.flatMap Attribute.bytes) fun _ => True
  | [], _, _ => .pure trivial
  | a :: attributes, before, h => by
    rw [List.forall_mem_cons] at h
    rw [List.flatMap_cons, Attribute.bytes, List.append_assoc, List.append_assoc]
    refine (Covers.u16 _).bind fun label _ => (Covers.ofExcept _).bind fun name _ => ?_
    refine (Covers.of_reads (Reads.u32 _)).bind ?_
    rintro _ rfl
    rw [Attribute.length_toNat h.1]
    refine (Covers.of_reads (Reads.take a.content)).bind fun content _ => ?_
    exact (Covers.ofExcept _).bind fun after _ => covers_foldAttributes interpret after h.2

theorem covers_readField {f : FieldForm} (h : f.Fits) :
    Covers (readField pool) f.bytes fun field => pool.HoldsText f.name field.name := by
  refine (Covers.u16 _).bind fun access _ => (Covers.u16 _).bind ?_
  rintro _ rfl
  refine (Covers.ofExcept _).bind fun name hname => ?_
  refine (Covers.u16 _).bind fun _ _ => (Covers.ofExcept _).bind fun descriptor _ => ?_
  refine (Covers.u16 _).bind ?_
  rintro _ rfl
  rw [Attribute.count_toNat h, ← List.append_nil (f.attributes.flatMap Attribute.bytes)]
  exact (covers_foldAttributes _ _ h.2).bind fun constant _ =>
    .pure (ConstantPool.utf8_iff_holds.1 hname)

theorem exists_attributes {α : Type} {interpret : String → List UInt8 → α → Except Error α} :
    ∀ {count pc : Nat} {bytes : List UInt8} {before after : α},
      Accepts (foldAttributes pool interpret count before) pc bytes after →
      ∃ attributes : List Attribute, attributes.length = count ∧ (∀ a ∈ attributes, a.Fits) ∧
        bytes = attributes.flatMap Attribute.bytes
  | 0, _, _, _, _, h => ⟨[], rfl, by simp, (accepts_pure.1 h).1⟩
  | count + 1, _, _, _, _, h => by
    simp only [foldAttributes, accepts_u16_bind, accepts_ofExcept_bind, accepts_bind Framed.u32,
      accepts_u32, accepts_bind (.take _), accepts_take] at h
    obtain ⟨label, _, rfl, name, -, _, _, size, rfl, rfl, _, _, content, rfl, ⟨hcontent, rfl⟩,
      after, -, h⟩ := h
    obtain ⟨attributes, hlength, hfits, rfl⟩ := exists_attributes h
    have hfit : Attribute.Fits ⟨label, content⟩ := hcontent.trans_lt size.toNat_lt
    refine ⟨⟨label, content⟩ :: attributes, congrArg (· + 1) hlength,
      List.forall_mem_cons.2 ⟨hfit, hfits⟩, ?_⟩
    simp [Attribute.bytes, hcontent]

theorem exists_field {field : Field} (h : Accepts (readField pool) pc bytes field) :
    ∃ f : FieldForm, f.Fits ∧ bytes = f.bytes := by
  simp only [readField, accepts_u16_bind, accepts_ofExcept_bind,
    accepts_map (foldAttributes_delimited _ _ _ _).framed] at h
  obtain ⟨access, _, rfl, name, _, rfl, _, -, descriptor, _, rfl, _, -, count, _, rfl, _, hfold, -⟩ :=
    h
  obtain ⟨attributes, hlength, hfits, rfl⟩ := exists_attributes hfold
  have hmany : attributes.length ≤ 65535 := hlength.trans_le (Nat.le_of_lt_succ count.toNat_lt)
  refine ⟨⟨access, name, descriptor, attributes⟩, ⟨hmany, hfits⟩, ?_⟩
  rw [FieldForm.bytes, Attribute.listBytes, hlength, UInt16.ofNat_toNat]

theorem covers_classNames {slots : List UInt16} (h : slots.length ≤ 65535) :
    Covers (readCounted do Reader.ofExcept (pool.className (← Reader.u16))) (counted u16 slots)
      (List.Forall₂ (fun i name => pool.className i = .ok name) slots) := by
  refine Covers.readCounted h fun i _ => ?_
  rw [← List.append_nil (u16 i)]
  refine (Covers.u16 i).bind ?_
  rintro _ rfl
  exact .ofExcept _

theorem exists_classNames {names : List String}
    (h : Accepts (readCounted do Reader.ofExcept (pool.className (← Reader.u16))) pc bytes names) :
    ∃ slots : List UInt16, slots.length ≤ 65535 ∧ bytes = counted u16 slots := by
  have hitem : ∀ {pc bytes name},
      Accepts (do Reader.ofExcept (pool.className (← Reader.u16))) pc bytes name →
        ∃ i : UInt16, True ∧ bytes = u16 i := by
    intro pc bytes name hname
    simp only [accepts_u16_bind, accepts_ofExcept] at hname
    obtain ⟨i, _, rfl, rfl, -⟩ := hname
    exact ⟨i, trivial, List.append_nil _⟩
  obtain ⟨slots, hlength, -, hbytes⟩ := exists_counted (.bind .u16 fun _ => .ofExcept _) hitem h
  exact ⟨slots, hlength, hbytes⟩

end ClassFile

/-! ### Openings -/

namespace ClassOpening

variable {o : ClassOpening} {file : ClassFile} {bytes rest : List UInt8}

/-- From whatever opening a class is read, its fields have the names that it gives for them. -/
theorem names_of_ofBytes (h : o.Fits) (hread : ClassFile.ofBytes (o.bytes ++ rest) = .ok file) :
    List.Forall₂ (fun f field => (ConstantPool.ofEntries o.constants).HoldsText f.name field.name)
      o.fields file.fields := by
  have hpool : Covers ConstantPool.read (ConstantPool.written o.slots o.constants)
      (· = ConstantPool.ofEntries o.constants) :=
    .of_reads fun rest pc =>
      ConstantPool.accepts_read.2 ⟨_, _, h.constants, h.slots, rfl, rfl⟩ rest
  rw [ClassFile.ofBytes, Reader.read] at hread
  cases hrun : ClassFile.reader (.start (o.bytes ++ rest)) with
  | error e c => simp [hrun] at hread
  | ok found c =>
    rw [hrun] at hread
    cases hread
    simp only [Cursor.start, bytes, List.append_assoc] at hrun
    obtain ⟨_, rfl, hrun⟩ := (Covers.of_reads (Reads.u32 _)).run_bind hrun
    rw [if_neg (by simp)] at hrun
    obtain ⟨_, rfl, hrun⟩ := (Covers.u16 _).run_bind hrun
    obtain ⟨_, rfl, hrun⟩ := (Covers.u16 _).run_bind hrun
    obtain ⟨_, rfl, hrun⟩ := hpool.run_bind hrun
    obtain ⟨_, rfl, hrun⟩ := (Covers.u16 _).run_bind hrun
    obtain ⟨_, rfl, hrun⟩ := (Covers.u16 _).run_bind hrun
    obtain ⟨_, -, hrun⟩ := (Covers.ofExcept _).run_bind hrun
    obtain ⟨_, rfl, hrun⟩ := (Covers.u16 _).run_bind hrun
    obtain ⟨_, -, hrun⟩ := (Covers.ofExcept _).run_bind hrun
    obtain ⟨_, -, hrun⟩ := (ClassFile.covers_classNames h.interfaces).run_bind hrun
    obtain ⟨fields, hfields, hrun⟩ := (Covers.readCounted h.fieldCount fun f hf =>
      ClassFile.covers_readField (h.fields f hf)).run_bind hrun
    obtain ⟨_, _, -, hrun⟩ := bind_eq_ok.1 hrun
    obtain ⟨_, _, -, hrun⟩ := bind_eq_ok.1 hrun
    cases hrun
    exact hfields

/-- Every byte string that is read as a class has an opening. -/
theorem exists_opening (hread : ClassFile.ofBytes bytes = .ok file) :
    ∃ (o : ClassOpening) (rest : List UInt8), o.Fits ∧ bytes = o.bytes ++ rest := by
  rw [ClassFile.ofBytes, Reader.read] at hread
  cases hrun : ClassFile.reader (.start bytes) with
  | error e c => simp [hrun] at hread
  | ok found c =>
    obtain ⟨front, hfront, -, h⟩ := ClassFile.reader_delimited.framed _ _ _ hrun
    simp only [ClassFile.reader, accepts_bind Framed.u32, accepts_u32, accepts_guard,
      accepts_u16_bind, accepts_bind ConstantPool.read_delimited.framed, accepts_ofExcept_bind] at h
    obtain ⟨_, _, magic, rfl, rfl, hsame, minor, _, rfl, major, _, rfl, _, _, pool, rfl, hpool,
      access, _, rfl, this, _, rfl, _, -, super, _, rfl, _, -, h⟩ := h
    obtain ⟨_, _, _, rfl, hinterfaces, h⟩ := (accepts_bind (ClassFile.readCounted_delimited
      (.bind .u16 fun _ => .ofExcept _)).framed).1 h
    obtain ⟨_, rest, _, rfl, hfields, -⟩ := (accepts_bind (ClassFile.readCounted_delimited
      (ClassFile.readField_delimited pool)).framed).1 h
    obtain ⟨slots, constants, hconstants, hslots, rfl, rfl⟩ := ConstantPool.accepts_read.1 hpool
    obtain ⟨interfaces, hinterfaceCount, rfl⟩ := ClassFile.exists_classNames hinterfaces
    obtain ⟨fields, hfieldCount, hfits, rfl⟩ := exists_counted
      (ClassFile.readField_delimited _).framed ClassFile.exists_field hfields
    refine ⟨⟨minor, major, slots, constants, access, this, super, interfaces, fields⟩,
      rest ++ c.rest, ⟨hconstants, hslots, hinterfaceCount, hfieldCount, hfits⟩, ?_⟩
    refine Eq.trans hfront ?_
    rw [not_not.1 hsame]
    simp [ClassOpening.bytes]

end ClassOpening

end ResourceMerge

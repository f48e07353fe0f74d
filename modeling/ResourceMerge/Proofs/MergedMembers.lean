import Mathlib.Data.List.Nodup
import Mathlib.Data.List.Perm.Subperm
import ResourceMerge.Proofs.ArrayCode
import ResourceMerge.Proofs.ClassReading
import ResourceMerge.Proofs.ClassSteps

/-! The class file that a merged table is written as, read back. Its fields are those of the arrays
    and of the scalars that belong to the class, and its only method is the initialiser, whose body
    decodes to the instructions it was given, up to what narrow pushes lose. Every field has an
    entry of its own in the pool, so the pool's limit keeps the number of fields below the limit of
    the class file; the body's limit does the same for the lengths of the arrays. -/

namespace ResourceMerge.MergedClass

open ClassDraft

/-! ### Which members there are -/

/-- The field of an array. -/
def arrayField (entry : String × List Int32) : Field :=
  ⟨.ofConstant, entry.1, intArrayDescriptor, none⟩

/-- The field of a scalar, by the name it has in the class. -/
def scalarField (entry : String × Int32) : Field :=
  ⟨.ofConstant, entry.1, intDescriptor, some entry.2⟩

/-- The scalars that belong to the class `owner`, by the names they have in it. -/
def ownScalars (table : SymbolTable) (owner : String) : List (String × Int32) :=
  table.scalars.entries.filterMap fun entry =>
    (ownField? owner entry.1).map fun field => (field, entry.2)

/-- All fields of the class. -/
def memberFields (table : SymbolTable) (owner : String) : List Field :=
  table.arrays.entries.map arrayField ++ (ownScalars table owner).map scalarField

/-- A scalar belongs to the class if its name is the simple name of the class, a dot and more. -/
theorem ownField?_eq_some {owner name field : String} :
    ownField? owner name = some field ↔ name = Harvest.qualified (simpleName owner) field := by
  simp only [ownField?, rest?, Option.map_eq_some_iff, List.isPrefixOf?_eq_some_iff_append_eq,
    Harvest.qualified, ← String.toList_inj, String.toList_append]
  constructor
  · rintro ⟨rest, happend, hrest⟩
    rw [String.toList_ofList] at hrest
    rw [← happend, hrest]
  · intro h
    exact ⟨field.toList, h.symm, String.toList_ofList⟩

/-- Scalars of different names stay apart. -/
theorem nodup_ownScalars (table : SymbolTable) (owner : String) :
    ((ownScalars table owner).map Prod.fst).Nodup := by
  have hnames : (ownScalars table owner).map Prod.fst
      = (table.scalars.entries.map Prod.fst).filterMap (ownField? owner) := by
    simp [ownScalars, List.map_filterMap, List.filterMap_map, Function.comp_def]
  rw [hnames]
  refine table.scalars.distinct.filterMap fun a b field ha hb => ?_
  rw [ownField?_eq_some.1 ha, ownField?_eq_some.1 hb]

/-! ### How they are added -/

variable {draft : ClassDraft} {outline : Outline}

/-- The class with more fields. -/
def withFields (outline : Outline) (fields : List Field) : Outline :=
  { outline with fields := outline.fields ++ fields }

/-- A step that, if it succeeds, adds exactly some fields. -/
def Adds (step : Step Unit) (fields : List Field) : Prop :=
  ∀ (draft : ClassDraft) (outline : Outline), draft.Stands outline →
    Ends step draft (fun _ later => later.Stands (withFields outline fields)) (fun _ _ => True)

theorem forM_adds {α : Type} {add : α → Step Unit} {fields : α → List Field}
    (hadd : ∀ item, Adds (add item) (fields item)) :
    ∀ items : List α, Adds (items.forM add) (items.flatMap fields)
  | [], draft, outline, h => .pure (by simpa [withFields] using h)
  | item :: items, draft, outline, h => by
    rw [List.forM]
    refine (hadd item draft outline h).andThen ?_ fun _ _ _ => trivial
    intro _ middle hmiddle
    simpa [withFields] using forM_adds hadd items middle _ hmiddle

theorem addField_adds (access : Access) (name descriptor : String) (constant : Option Int32) :
    Adds (addField access name descriptor constant) [⟨access, name, descriptor, constant⟩] :=
  fun _ _ h => (addField_ends h access name descriptor constant).mono (fun _ _ h => h)
    fun _ _ _ => trivial

theorem addArray_adds (entry : String × List Int32) : Adds (addArray entry) [arrayField entry] :=
  addField_adds _ _ _ _

/-- The fields that a scalar of the table becomes: one or none. -/
def scalarFields (owner : String) (entry : String × Int32) : List Field :=
  ((ownField? owner entry.1).map fun field => scalarField (field, entry.2)).toList

theorem addScalar_adds (owner : String) (entry : String × Int32) :
    Adds (addScalar owner entry) (scalarFields owner entry) := by
  unfold addScalar scalarFields
  cases ownField? owner entry.1 with
  | none => exact fun _ _ h => .pure (by simpa [withFields] using h)
  | some field => exact addField_adds _ _ _ _

theorem flatMap_scalarFields (table : SymbolTable) (owner : String) :
    table.scalars.entries.flatMap (scalarFields owner)
      = (ownScalars table owner).map scalarField := by
  rw [ownScalars, List.map_filterMap]
  induction table.scalars.entries with
  | nil => rfl
  | cons entry entries ih =>
    rw [List.flatMap_cons, ih, List.filterMap_cons]
    cases h : ownField? owner entry.1 <;> simp [scalarFields, h]

/-- The initialiser as a method. -/
def initializerMethod (maxStack : UInt16) (code : List UInt8) : Method :=
  ⟨.ofInitializer, ClassFile.initializerName, ClassFile.initializerDescriptor,
    some ⟨maxStack, 0, code⟩⟩

/-- The class that is started and given all its members, before it is written. -/
structure Assembled (table : SymbolTable) (target : Target) (draft : ClassDraft)
    (maxStack : UInt16) (code : List UInt8) : Prop where
  stands : draft.Stands ⟨target.className, superName, .ofGeneratedClass, target.classVersion,
    memberFields table target.className, [initializerMethod maxStack code]⟩
  depth : Instruction.maxStack (initializer table target.className) = .ok maxStack
  short : (initializer table target.className).length ≤ code.length
  decodes : MethodBody.decode draft.pool.frozen code
    = .ok ((initializer table target.className).map Instruction.reread)
  stored : ∀ field, .storeField field ∈ initializer table target.className →
    ∃ i, draft.pool.frozen.field i = .ok field

theorem addMembers_ends (table : SymbolTable) (target : Target)
    (h : draft.Stands ⟨target.className, superName, .ofGeneratedClass, target.classVersion, [], []⟩) :
    Ends (addMembers table target.className) draft
      (fun _ later => ∃ maxStack code, Assembled table target later maxStack code)
      (fun _ _ => True) := by
  refine (forM_adds addArray_adds table.arrays.entries _ _ h).andThen ?_ fun _ _ h => h
  intro _ first hfirst
  refine (forM_adds (addScalar_adds target.className) table.scalars.entries _ _ hfirst).andThen ?_
    fun _ _ h => h
  intro _ second hsecond
  refine (addMethod_ends hsecond _ _ _ _ _).mono ?_ fun _ _ _ => trivial
  rintro _ later ⟨maxStack, code, pool, hdepth, hencode, hgrows, hstands⟩
  obtain ⟨-, hshort, hdecodes, hstored⟩ := (MethodBody.encode_ends _ _).of_ok hencode
  refine ⟨maxStack, code, ?_, hdepth, hshort, hdecodes _ hgrows.within, fun field hfield => ?_⟩
  · simpa [withFields, Outline.withMethod, memberFields, initializerMethod, flatMap_scalarFields,
      ← List.map_eq_flatMap] using hstands
  · obtain ⟨i, hi⟩ := hstored field hfield
    exact ⟨i, hgrows.within.field hi⟩

/-! ### How many there can be -/

/-- Distinct things, each with a slot of its own, are no more than there are entries. -/
theorem length_le_of_slots {α : Type} {things : List α} {draft : PoolDraft}
    {has : α → UInt16 → Prop} (hdistinct : things.Nodup)
    (hslot : ∀ a ∈ things, ∃ i c, has a i ∧ draft.frozen.get i = .ok c)
    (hown : ∀ a b i, has a i → has b i → a = b) : things.length ≤ draft.entries.size := by
  choose! slot c hhas hget using hslot
  have hslots : (things.map fun a => (slot a).toNat).Nodup := by
    refine hdistinct.map_on fun a ha b hb hab => hown a b (slot a) (hhas a ha) ?_
    rw [UInt16.toNat_inj.1 hab]
    exact hhas b hb
  have hrange : (things.map fun a => (slot a).toNat) ⊆ List.range' 1 draft.entries.size := by
    intro n hn
    obtain ⟨a, ha, rfl⟩ := List.mem_map.1 hn
    obtain ⟨k, hk, hentry⟩ := PoolDraft.frozen_get.1 (hget a ha)
    have hlt := (List.getElem?_eq_some_iff.1 hentry).1
    rw [Array.length_toList] at hlt
    rw [List.mem_range'_1]
    omega
  simpa using (hslots.subperm hrange).length_le

/-- An array has the slot through which its field is stored into, a scalar that of its name. -/
def HasSlot (pool : ConstantPool) (owner : String) : String ⊕ String → UInt16 → Prop
  | .inl array, i => pool.field i = .ok (.intArray owner array)
  | .inr scalar, i => pool.utf8 i = .ok scalar

theorem HasSlot.unique {pool : ConstantPool} {owner : String} {a b : String ⊕ String} {i : UInt16}
    (ha : HasSlot pool owner a i) (hb : HasSlot pool owner b i) : a = b := by
  rcases a with a | a <;> rcases b with b | b
  · have hab := ha.symm.trans hb
    simpa [FieldRef.intArray] using hab
  · obtain ⟨_, _, _, _, hget, -⟩ := ConstantPool.field_eq_ok.1 ha
    have htext := ConstantPool.utf8_eq_ok.1 hb
    simp [hget] at htext
  · obtain ⟨_, _, _, _, hget, -⟩ := ConstantPool.field_eq_ok.1 hb
    have htext := ConstantPool.utf8_eq_ok.1 ha
    simp [hget] at htext
  · have hab := ha.symm.trans hb
    simpa using hab

theorem mem_initializer {table : SymbolTable} {owner : String} {entry : String × List Int32}
    (h : entry ∈ table.arrays.entries) :
    .storeField (.intArray owner entry.1) ∈ initializer table owner := by
  refine List.mem_append_left _ (List.mem_flatMap.2 ⟨entry, h, ?_⟩)
  simp [arrayInstructions]

/-- Whatever is on the right of a relation between lists has a partner on the left. -/
theorem exists_of_mem_right {α β : Type} {R : α → β → Prop} {xs : List α} {ys : List β}
    (h : List.Forall₂ R xs ys) {b : β} (hb : b ∈ ys) : ∃ a, R a b := by
  induction h with
  | nil => cases hb
  | cons hhead _ ih =>
    rcases List.mem_cons.1 hb with rfl | hrest
    · exact ⟨_, hhead⟩
    · exact ih hrest

namespace Assembled

variable {table : SymbolTable} {target : Target} {maxStack : UInt16} {code : List UInt8}

/-- The name of a field of the class has a slot. -/
theorem scalar_slot (h : Assembled table target draft maxStack code) {entry : String × Int32}
    (hentry : entry ∈ ownScalars table target.className) :
    ∃ i, draft.pool.frozen.utf8 i = .ok entry.1 := by
  have hmem : scalarField entry ∈ memberFields table target.className :=
    List.mem_append_right _ (List.mem_map_of_mem hentry)
  obtain ⟨fieldDraft, hstands⟩ := exists_of_mem_right h.stands.fields hmem
  exact ⟨_, hstands.name⟩

/-- The pool's limit holds the fields down. -/
theorem fields_length_le (h : Assembled table target draft maxStack code) :
    (memberFields table target.className).length ≤ draft.pool.entries.size := by
  -- an array and a scalar may share their name, so the two kinds are kept apart
  let names : List (String ⊕ String) := (table.arrays.entries.map Prod.fst).map .inl
    ++ ((ownScalars table target.className).map Prod.fst).map .inr
  have hdistinct : names.Nodup := by
    refine List.Nodup.append (table.arrays.distinct.map Sum.inl_injective)
      ((nodup_ownScalars table target.className).map Sum.inr_injective) ?_
    simp [List.Disjoint]
  have hlength : names.length = (memberFields table target.className).length := by
    simp [names, memberFields]
  rw [← hlength]
  have hslot : ∀ a ∈ names, ∃ i c, HasSlot draft.pool.frozen target.className a i ∧
      draft.pool.frozen.get i = .ok c := by
    intro a ha
    rcases List.mem_append.1 ha with ha | ha
    · obtain ⟨name, hname, rfl⟩ := List.mem_map.1 ha
      obtain ⟨entry, hentry, rfl⟩ := List.mem_map.1 hname
      obtain ⟨i, hi⟩ := h.stored _ (mem_initializer hentry)
      obtain ⟨_, _, _, _, hget, -⟩ := ConstantPool.field_eq_ok.1 hi
      exact ⟨i, _, hi, hget⟩
    · obtain ⟨name, hname, rfl⟩ := List.mem_map.1 ha
      obtain ⟨entry, hentry, rfl⟩ := List.mem_map.1 hname
      obtain ⟨i, hi⟩ := h.scalar_slot hentry
      exact ⟨i, _, hi, ConstantPool.utf8_eq_ok.1 hi⟩
  exact length_le_of_slots hdistinct hslot fun _ _ _ => HasSlot.unique

end Assembled

/-! ### What is read back -/

/-- The class file of a table, as it is read. -/
structure Written (table : SymbolTable) (target : Target) (file : ClassFile) (maxStack : UInt16)
    (code : List UInt8) : Prop where
  thisClass : file.thisClass = target.className
  fields : file.fields = memberFields table target.className
  methods : file.methods = [initializerMethod maxStack code]
  depth : Instruction.maxStack (initializer table target.className) = .ok maxStack
  decodes : MethodBody.decode file.pool code
    = .ok ((initializer table target.className).map Instruction.reread)
  bodyFits : (initializer table target.className).length ≤ 65535
  fieldsFit : (memberFields table target.className).length ≤ 65533
  poolFits : file.pool.size ≤ 65534

/-- A table that can be built is written as its class. -/
theorem build_written {table : SymbolTable} {target : Target} {bytes : List UInt8}
    (h : build table target = .ok bytes) :
    ∃ file maxStack code, ClassFile.ofBytes bytes = .ok file ∧
      Written table target file maxStack code := by
  obtain ⟨started, hstart, hrest⟩ := Except.bind_eq_ok.1 h
  cases hmembers : addMembers table target.className started with
  | error e later => simp [hmembers] at hrest
  | ok _ later =>
    simp only [hmembers] at hrest
    obtain ⟨maxStack, code, hassembled⟩ :=
      (addMembers_ends table target (start_stands hstart)).of_ok hmembers
    have hsize := later.pool.size_le
    have hfits : (memberFields table target.className).length ≤ 65533 :=
      hassembled.fields_length_le.trans hsize
    obtain ⟨written, hwrite, hreads⟩ :=
      hassembled.stands.write_reads (hfits.trans (by decide)) (by simp)
    rw [hrest] at hwrite
    cases hwrite
    obtain ⟨methodDraft, hmethod⟩ :=
      exists_of_mem_right hassembled.stands.methods List.mem_cons_self
    have hcode : code.length ≤ 65535 := by
      have hbody := hmethod.fits
      rwa [← Option.some.inj hmethod.body] at hbody
    refine ⟨_, maxStack, code, hreads.read, rfl, rfl, rfl, hassembled.depth, hassembled.decodes,
      hassembled.short.trans hcode, hfits, ?_⟩
    simp [Outline.file, PoolDraft.frozen, ConstantPool.size]
    omega

namespace Written

variable {table : SymbolTable} {target : Target} {file : ClassFile} {maxStack : UInt16}
  {code : List UInt8}

/-- The body's limit holds the arrays down. -/
theorem values_fit (h : Written table target file maxStack code) {entry : String × List Int32}
    (hentry : entry ∈ table.arrays.entries) : entry.2.length ≤ 16383 := by
  have hbody := values_length_le target.className hentry
  have hfits := h.bodyFits
  omega

theorem initializer_eq (h : Written table target file maxStack code) :
    file.initializer? = some (initializerMethod maxStack code) := by
  simp [ClassFile.initializer?, ClassFile.method?, h.methods, initializerMethod]

theorem instructions_eq (h : Written table target file maxStack code) :
    file.instructions (initializerMethod maxStack code)
      = .ok ((initializer table target.className).map Instruction.reread) :=
  h.decodes

end Written

/-- A table that can be built: two arrays, one with a value that a byte does not hold and one that
    shares its name with a scalar, and two scalars, one of which belongs to another class. -/
def sampleTable : SymbolTable where
  scalars := ⟨[("R$styleable.x", 7), ("R$id.y", -1)], by decide⟩
  arrays := ⟨[("a", [7, -200, 70000]), ("x", [])], by decide⟩

end ResourceMerge.MergedClass

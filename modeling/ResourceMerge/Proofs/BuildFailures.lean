import Mathlib.Data.List.TakeWhile
import ResourceMerge.Proofs.ClassRequests
import ResourceMerge.Proofs.InitializerCode
import ResourceMerge.Proofs.MergedMembers

/-! Which tables cannot be written as a class. The class of a table needs a list of items that
    depends on the table and on its target alone. It can be built unless a name is too long, the
    distinct parts of these items do not fit into a pool, or the body of the initialiser exceeds its
    limit; all other failures of the stages on the way are out of reach. The size of the body
    depends on the slots of the constants that it pushes, and these are their places among the
    distinct parts. -/

namespace ResourceMerge.MergedClass

open ClassDraft PoolDraft

/-! ### What the class needs -/

/-- The items that the class asks for, up to the body of its initialiser. -/
def memberItems (table : SymbolTable) (target : Target) : List Item :=
  [.classRef target.className, .classRef superName]
    ++ (memberFields table target.className).flatMap Field.items

/-- The items that it asks for behind that body. -/
def methodItems : List Item :=
  [.text ClassFile.initializerName, .text ClassFile.initializerDescriptor,
    .text ClassFile.codeAttribute]

/-- All parts of the items that the class of a table needs, in the order in which it needs them. -/
def neededParts (table : SymbolTable) (target : Target) : List Item :=
  (memberItems table target).flatMap Item.parts
    ++ (MethodBody.named (initializer table target.className) ++ methodItems.flatMap Item.parts)

/-- The distinct constants that the class of a table needs. -/
def neededConstants (table : SymbolTable) (target : Target) : List Item :=
  (neededParts table target).eraseDups

/-- The slot that an instruction names, where these are the constants of a pool. -/
def slotAmong (constants : List Item) (insn : Instruction) : Nat :=
  insn.item?.elim 0 fun item => constants.idxOf item + 1

/-- The number of bytes of the initialiser's body. -/
def bodySize (table : SymbolTable) (target : Target) : Nat :=
  ((initializer table target.className).map fun insn =>
    insn.size (slotAmong (neededConstants table target) insn)).sum

/-! ### What the class asks for -/

/-- What building the class of a table asks of a pool; the answer is the body of its initialiser. -/
def classRequest (table : SymbolTable) (target : Target) : Request (List UInt8) := do
  askAll (memberItems table target)
  let code ← MethodBody.encode (initializer table target.className)
  askAll methodItems
  return code

variable {table : SymbolTable} {target : Target} {code : List UInt8} {draft : PoolDraft}

theorem classRequest_onlyRefuses (table : SymbolTable) (target : Target) :
    OnlyRefuses (classRequest table target) := by
  refine (askAll_onlyRefuses _).bind fun _ => ?_
  refine (OnlyRefuses.encode fun insn hinsn => initializer_hasForm hinsn).bind fun code => ?_
  exact (askAll_onlyRefuses _).bind fun _ => .pure code

theorem classRequest_tracks (table : SymbolTable) (target : Target) :
    Tracks (classRequest table target) .empty [] (neededParts table target) fun code pool =>
      ∃ sizes, List.Forall₂ (Instruction.Takes pool) (initializer table target.className) sizes ∧
        code.length = sizes.sum := by
  have hempty : Lists .empty [] := .nil
  have hlast : methodItems.flatMap Item.parts = methodItems.flatMap Item.parts ++ [] := by simp
  rw [neededParts, hlast]
  refine (askAll_tracks _ hempty).bind fun _ first items _ hfirst _ => ?_
  refine (MethodBody.encode_tracks hfirst fun insn hinsn => initializer_hasForm hinsn).bind
    fun code second items' _ hsecond hcode => ?_
  refine (askAll_tracks _ hsecond).bind fun _ third items'' hgrows hthird _ => ?_
  obtain ⟨sizes, htakes, hlength⟩ := hcode
  refine .pure hthird ⟨sizes, htakes.imp fun _ _ h => h.within hgrows.within, hlength⟩

/-! ### Sizes and slots -/

/-- The slot of an item is its place among the items of the pool. -/
theorem slot_of_lists {items : List Item} {item : Item} {i : UInt16} (hlists : Lists draft items)
    (h : item.At draft.frozen i) : i.toNat = items.idxOf item + 1 := by
  obtain ⟨c, hc, hentry⟩ := Item.at_iff.1 h
  have hmem : item ∈ items := (hlists.mem_iff hentry).2 (mem_entries_iff.2 ⟨i, hc⟩)
  have hlt := List.idxOf_lt_length_of_mem hmem
  have hplace : items[items.idxOf item]? = some item := by
    rw [List.getElem?_eq_getElem hlt, List.getElem_idxOf]
  obtain ⟨c', hc', hentry'⟩ := Item.at_iff.1 (hlists.at_slot hplace)
  cases draft.frozen_distinct.entry hentry hentry'
  have hlength := hlists.length
  have hsize := draft.size_le
  rw [draft.frozen_distinct _ _ _ hc hc', UInt16.toNat_ofNat']
  omega

theorem size_of_takes {items : List Item} {insn : Instruction} {n : Nat}
    (hlists : Lists draft items) (h : insn.Takes draft.frozen n) :
    insn.size (slotAmong items insn) = n := by
  obtain ⟨i, hitem, rfl⟩ := h
  cases insn with
  | pushConstant v =>
    rw [slot_of_lists hlists (hitem (.integer v) rfl)]
    rfl
  | _ => rfl

/-- A request that succeeds leaves a pool of the constants that the class needs, and answers a body
    of the size that they determine. -/
theorem classRequest_ok (h : classRequest table target .empty = .ok code draft) :
    HasRoom [] (neededParts table target) ∧ Lists draft (neededConstants table target) ∧
      code.length = bodySize table target := by
  obtain ⟨-, ⟨sizes, htakes, hlength⟩, items, henlisted, hlists⟩ :=
    (classRequest_tracks table target).of_ok h
  obtain ⟨rfl, hroom⟩ :=
    (enlistAll_ends (neededParts table target) List.nodup_nil (by decide)).of_ok henlisted
  have hconstants : enlisted [] (neededParts table target) = neededConstants table target := by
    rw [enlisted, List.takeWhile_eq_self_iff.2 hroom.1, List.take_of_length_le hroom.2]
    rfl
  rw [hconstants] at hlists
  have hsizes := htakes.imp fun insn n htake => size_of_takes hlists htake
  rw [← List.forall₂_map_left_iff, List.forall₂_eq_eq_eq] at hsizes
  exact ⟨hroom, hlists, by rw [hlength, bodySize, hsizes]⟩

theorem classRequest_succeeds_iff (table : SymbolTable) (target : Target) :
    (∃ code draft, classRequest table target .empty = .ok code draft) ↔
      HasRoom [] (neededParts table target) :=
  (classRequest_tracks table target).succeeds_iff List.nodup_nil (by decide)

/-! ### Building is asking -/

theorem start_asks (name superName : String) (access : Access) (version : UInt16) :
    match ClassDraft.start name superName access version with
    | .ok draft => askAll [.classRef name, .classRef superName] .empty = .ok () draft.pool
    | .error e => ∃ pool, askAll [.classRef name, .classRef superName] .empty = .error e pool := by
  simp only [ClassDraft.start, askAll, Item.ask, Bind.bind, EStateM.bind]
  cases PoolDraft.classRef name .empty with
  | error e pool => exact ⟨pool, rfl⟩
  | ok this first =>
    simp only
    cases PoolDraft.classRef superName first with
    | error e pool => exact ⟨pool, rfl⟩
    | ok super second => rfl

theorem addScalar_asks (owner : String) (entry : String × Int32) :
    Asks (addScalar owner entry) (askAll ((scalarFields owner entry).flatMap Field.items)) := by
  unfold addScalar scalarFields
  cases ownField? owner entry.1 with
  | none => exact .pure ()
  | some field => exact addField_asks _ _ _ _

theorem memberFields_flatMap_items (table : SymbolTable) (owner : String) :
    (memberFields table owner).flatMap Field.items
      = table.arrays.entries.flatMap (fun entry => (arrayField entry).items)
        ++ table.scalars.entries.flatMap fun entry =>
          (scalarFields owner entry).flatMap Field.items := by
  rw [memberFields, List.flatMap_append, List.flatMap_map, ← flatMap_scalarFields,
    List.flatMap_assoc]

/-- Adds all fields of the class. -/
def addFields (table : SymbolTable) (owner : String) : Step Unit := do
  table.arrays.entries.forM addArray
  table.scalars.entries.forM (addScalar owner)

/-- The initialiser comes behind the fields. -/
theorem addMembers_eq (table : SymbolTable) (owner : String) : addMembers table owner = (do
    addFields table owner
    addMethod .ofInitializer ClassFile.initializerName ClassFile.initializerDescriptor
      (initializer table owner) 0) :=
  (bind_assoc _ _ _).symm

theorem addFields_asks (table : SymbolTable) (owner : String) :
    Asks (addFields table owner) (askAll ((memberFields table owner).flatMap Field.items)) := by
  rw [memberFields_flatMap_items, askAll_append]
  refine (Asks.forM (fun _ => addField_asks _ _ _ _) _).bind fun _ => ?_
  exact Asks.forM (addScalar_asks owner) _

theorem addFields_adds (table : SymbolTable) (owner : String) :
    Adds (addFields table owner) (memberFields table owner) := by
  intro draft outline h
  refine (forM_adds addArray_adds table.arrays.entries _ _ h).andThen ?_ fun _ _ h => h
  intro _ middle hmiddle
  refine (forM_adds (addScalar_adds owner) table.scalars.entries _ _ hmiddle).mono ?_ fun _ _ h => h
  intro _ later hlater
  simpa [withFields, memberFields, flatMap_scalarFields, ← List.map_eq_flatMap] using hlater

/-- The check of the body's length comes last. -/
theorem addInitializer_asks (table : SymbolTable) (owner : String) :
    Asks (addMethod .ofInitializer ClassFile.initializerName ClassFile.initializerDescriptor
      (initializer table owner) 0) (do
        let code ← MethodBody.encode (initializer table owner)
        askAll methodItems
        checkBody code) := by
  obtain ⟨depth, hdepth, -⟩ := maxStack_initializer table owner
  simp only [addMethod, hdepth]
  exact (Asks.onPool _).bind fun code => addBody_asks _ _ _ _

/-- A class that was started is given its members as its request, with that check, is answered. -/
theorem addMembers_asks {started : ClassDraft}
    (h : start target.className superName .ofGeneratedClass target.classVersion = .ok started) :
    poolEnding (addMembers table target.className started)
      = (classRequest table target >>= checkBody) .empty := by
  have hstart := start_asks target.className superName .ofGeneratedClass target.classVersion
  rw [h] at hstart
  have hmembers := (addFields_asks table target.className).bind fun _ =>
    addInitializer_asks table target.className
  rw [addMembers_eq, hmembers started]
  simp only [classRequest, memberItems, askAll_append, bind_assoc, pure_bind]
  simp only [Bind.bind, EStateM.bind, hstart]

/-- The class of a table is refused with the error that its request, or the check, ends with. -/
theorem build_eq_error {e : Error} : build table target = .error e ↔
    ∃ pool, (classRequest table target >>= checkBody) .empty = .error e pool := by
  have hstarted := start_asks target.className superName .ofGeneratedClass target.classVersion
  unfold build
  cases hstart : start target.className superName .ofGeneratedClass target.classVersion with
  | error e' =>
    rw [hstart] at hstarted
    obtain ⟨pool, hpool⟩ := hstarted
    simp only [classRequest, memberItems, askAll_append, bind_assoc]
    simp [Bind.bind, Except.bind, EStateM.bind, hpool]
  | ok started =>
    rw [← addMembers_asks hstart]
    cases hmembers : addMembers table target.className started with
    | error e' later => simp [Bind.bind, Except.bind, hmembers, poolEnding]
    | ok _ later =>
      obtain ⟨maxStack, code, hassembled⟩ :=
        (addMembers_ends table target (start_stands hstart)).of_ok hmembers
      obtain ⟨bytes, hwrite⟩ := hassembled.stands.write_succeeds
      simp [Bind.bind, Except.bind, hmembers, poolEnding, hwrite]

/-- A class that was given its members has the pool and the body that answer its request. -/
theorem addMembers_answered {started later : ClassDraft}
    (hstart : start target.className superName .ofGeneratedClass target.classVersion = .ok started)
    (hmembers : addMembers table target.className started = .ok () later) :
    ∃ maxStack code, classRequest table target .empty = .ok code later.pool ∧
      later.Stands ⟨target.className, superName, .ofGeneratedClass, target.classVersion,
        memberFields table target.className, [initializerMethod maxStack code]⟩ := by
  rw [addMembers_eq] at hmembers
  obtain ⟨_, filled, hfields, hmethod⟩ := bind_eq_ok.1 hmembers
  have hstands := (addFields_adds table _ _ _ (start_stands hstart)).of_ok hfields
  obtain ⟨maxStack, code, encoded, -, hencode, -, hlast⟩ :=
    (addMethod_ends hstands _ _ _ _ _).of_ok hmethod
  refine ⟨maxStack, code, ?_, hlast⟩
  -- the requests are answered one after the other, the last ones behind the body
  have hstarted := start_asks target.className superName .ofGeneratedClass target.classVersion
  rw [hstart] at hstarted
  have hasked := (addFields_asks table target.className).of_ok hfields
  obtain ⟨_, _, hencode', hchecked⟩ :=
    bind_eq_ok.1 ((addInitializer_asks table target.className).of_ok hmethod)
  rw [hencode] at hencode'
  cases hencode'
  obtain ⟨_, named, hnamed, hcheck⟩ := bind_eq_ok.1 hchecked
  obtain ⟨-, rfl⟩ := checkBody_eq_ok.1 hcheck
  simp only [classRequest, memberItems, askAll_append, bind_assoc]
  exact bind_eq_ok.2 ⟨_, _, hstarted, bind_eq_ok.2 ⟨_, _, hasked, bind_eq_ok.2 ⟨_, _, hencode,
    bind_eq_ok.2 ⟨_, _, hnamed, rfl⟩⟩⟩⟩

/-- So does the class as it is read. -/
theorem build_answered {bytes : List UInt8} (h : build table target = .ok bytes) :
    ∃ file maxStack code pool, ClassFile.ofBytes bytes = .ok file ∧
      file.methods = [initializerMethod maxStack code] ∧ file.pool = PoolDraft.frozen pool ∧
      classRequest table target .empty = .ok code pool := by
  obtain ⟨started, hstart, hrest⟩ := Except.bind_eq_ok.1 h
  cases hmembers : addMembers table target.className started with
  | error e later => simp [hmembers] at hrest
  | ok _ later =>
    simp only [hmembers] at hrest
    obtain ⟨_, _, hassembled⟩ := (addMembers_ends table target (start_stands hstart)).of_ok hmembers
    have hfew := hassembled.fields_length_le.trans later.pool.size_le
    obtain ⟨maxStack, code, hrequest, hstands⟩ := addMembers_answered hstart hmembers
    obtain ⟨written, hwrite, hreads⟩ := hstands.write_reads (hfew.trans (by decide)) (by simp)
    rw [hrest] at hwrite
    cases hwrite
    exact ⟨_, maxStack, code, later.pool, hreads.read, rfl, rfl, hrequest⟩

/-! ### Texts -/

/-- The texts that every class needs, as far as they are not names of the table. -/
def fixedTexts : List String :=
  [superName, intArrayDescriptor, intDescriptor, ClassFile.constantValueAttribute,
    ClassFile.initializerName, ClassFile.initializerDescriptor, ClassFile.codeAttribute]

theorem utf8ByteSize_of_fixed : ∀ s ∈ fixedTexts, s.utf8ByteSize ≤ 65535 := by decide

variable {owner s : String}

theorem text_of_field {field : Field} (h : .text s ∈ field.items.flatMap Item.parts) :
    s = field.name ∨ s = field.descriptor ∨ s = ClassFile.constantValueAttribute := by
  cases hconstant : field.intConstant with
  | none =>
    have hs : s = field.name ∨ s = field.descriptor := by
      simpa [Field.items, hconstant, Item.parts] using h
    exact hs.imp_right .inl
  | some v => simpa [Field.items, hconstant, Item.parts] using h

theorem text_of_members
    (h : .text s ∈ ((memberFields table owner).flatMap Field.items).flatMap Item.parts) :
    (∃ entry ∈ table.arrays.entries, s = entry.1) ∨
      (∃ entry ∈ ownScalars table owner, s = entry.1) ∨ s ∈ fixedTexts := by
  rw [List.flatMap_assoc] at h
  obtain ⟨field, hfield, h⟩ := List.mem_flatMap.1 h
  rcases List.mem_append.1 hfield with hfield | hfield
  · obtain ⟨entry, hentry, rfl⟩ := List.mem_map.1 hfield
    rcases text_of_field h with rfl | rfl | rfl
    · exact .inl ⟨entry, hentry, rfl⟩
    · exact .inr (.inr (by simp [fixedTexts, arrayField]))
    · exact .inr (.inr (by simp [fixedTexts]))
  · obtain ⟨entry, hentry, rfl⟩ := List.mem_map.1 hfield
    rcases text_of_field h with rfl | rfl | rfl
    · exact .inr (.inl ⟨entry, hentry, rfl⟩)
    · exact .inr (.inr (by simp [fixedTexts, scalarField]))
    · exact .inr (.inr (by simp [fixedTexts]))

theorem text_of_initializer (h : .text s ∈ MethodBody.named (initializer table owner)) :
    s = owner ∨ (∃ entry ∈ table.arrays.entries, s = entry.1) ∨ s ∈ fixedTexts := by
  obtain ⟨item, hitem, hs⟩ := List.mem_flatMap.1 h
  rcases initializer_item hitem with ⟨v, rfl⟩ | ⟨entry, hentry, rfl⟩
  · simp [Item.parts] at hs
  · have hs : s = owner ∨ s = entry.1 ∨ s = intArrayDescriptor := by
      simpa [Item.parts, FieldRef.intArray] using hs
    rcases hs with rfl | rfl | rfl
    · exact .inl rfl
    · exact .inr (.inl ⟨entry, hentry, rfl⟩)
    · exact .inr (.inr (by simp [fixedTexts]))

/-- The texts that a class needs are its name, the names of its fields and the fixed ones. -/
theorem text_of_needed (h : .text s ∈ neededParts table target) :
    s = target.className ∨ (∃ entry ∈ table.arrays.entries, s = entry.1) ∨
      (∃ entry ∈ ownScalars table target.className, s = entry.1) ∨ s ∈ fixedTexts := by
  rw [neededParts, memberItems, List.flatMap_append, List.append_assoc, List.mem_append,
    List.mem_append, List.mem_append] at h
  rcases h with h | h | h | h
  · have hs : s = target.className ∨ s = superName := by simpa [Item.parts] using h
    exact hs.imp_right fun hs => .inr (.inr (by simp [fixedTexts, hs]))
  · exact .inr (text_of_members h)
  · exact (text_of_initializer h).imp_right fun hs => hs.imp_right .inr
  · have hs : s = ClassFile.initializerName ∨ s = ClassFile.initializerDescriptor ∨
        s = ClassFile.codeAttribute := by simpa [methodItems, Item.parts] using h
    exact .inr (.inr (.inr (by simp [fixedTexts, hs])))

theorem needed_className (table : SymbolTable) (target : Target) :
    .text target.className ∈ neededParts table target := by
  simp [neededParts, memberItems, Item.parts]

/-- The name of every field is needed. -/
theorem needed_fieldName {field : Field} (h : field ∈ memberFields table target.className) :
    .text field.name ∈ neededParts table target := by
  have hitem : Item.text field.name ∈ memberItems table target :=
    List.mem_append_right _ (List.mem_flatMap.2 ⟨field, h, List.mem_cons_self⟩)
  exact List.mem_append_left _ (List.mem_flatMap.2 ⟨_, hitem, List.mem_singleton_self _⟩)

/-! ### Which tables are refused -/

/-- The class, an array or a scalar of the class has a name that no class file holds. -/
def HasLongName (table : SymbolTable) (target : Target) : Prop :=
  65535 < target.className.utf8ByteSize ∨
    (∃ entry ∈ table.arrays.entries, 65535 < entry.1.utf8ByteSize) ∨
    ∃ entry ∈ ownScalars table target.className, 65535 < entry.1.utf8ByteSize

instance : Decidable (HasLongName table target) :=
  inferInstanceAs (Decidable (_ < _ ∨ (∃ _ ∈ _, _ < _) ∨ ∃ _ ∈ _, _ < _))

theorem hasLongName_iff : HasLongName table target ↔
    ∃ s, .text s ∈ neededParts table target ∧ 65535 < s.utf8ByteSize := by
  constructor
  · rintro (hlong | ⟨entry, hentry, hlong⟩ | ⟨entry, hentry, hlong⟩)
    · exact ⟨_, needed_className table target, hlong⟩
    · have hfield : arrayField entry ∈ memberFields table target.className :=
        List.mem_append_left _ (List.mem_map_of_mem hentry)
      exact ⟨_, needed_fieldName hfield, hlong⟩
    · have hfield : scalarField entry ∈ memberFields table target.className :=
        List.mem_append_right _ (List.mem_map_of_mem hentry)
      exact ⟨_, needed_fieldName hfield, hlong⟩
  · rintro ⟨s, hs, hlong⟩
    rcases text_of_needed hs with rfl | ⟨entry, hentry, rfl⟩ | ⟨entry, hentry, rfl⟩ | hs
    · exact .inl hlong
    · exact .inr (.inl ⟨entry, hentry, hlong⟩)
    · exact .inr (.inr ⟨entry, hentry, hlong⟩)
    · exact absurd hlong (not_lt.2 (utf8ByteSize_of_fixed s hs))

theorem not_hasRoom_needed_iff : ¬HasRoom [] (neededParts table target) ↔
    HasLongName table target ∨ 65533 < (neededConstants table target).length := by
  rw [not_hasRoom_iff List.nodup_nil, hasLongName_iff, neededConstants]
  simp

/-- The request fails for want of room, the check because of the size of the body. -/
theorem checked_fails_iff :
    (∃ e pool, (classRequest table target >>= checkBody) .empty = .error e pool) ↔
      ¬HasRoom [] (neededParts table target) ∨ 65535 < bodySize table target := by
  cases hrun : classRequest table target .empty with
  | error e pool =>
    have hroom : ¬HasRoom [] (neededParts table target) := by
      rw [← classRequest_succeeds_iff]
      simp [hrun]
    exact ⟨fun _ => .inl hroom, fun _ => ⟨e, pool, bind_eq_error.2 (.inl hrun)⟩⟩
  | ok code draft =>
    obtain ⟨hroom, -, hlength⟩ := classRequest_ok hrun
    rw [← hlength]
    constructor
    · rintro ⟨e, pool, h⟩
      rcases bind_eq_error.1 h with h | ⟨_, _, h, hcheck⟩
      · cases hrun.symm.trans h
      · cases hrun.symm.trans h
        exact .inr (checkBody_eq_error.1 hcheck).1
    · rintro (h | h)
      · exact absurd hroom h
      · have hcheck : checkBody code draft = .error (.malformed (.bodyTooLong code.length)) draft :=
          checkBody_eq_error.2 ⟨h, rfl, rfl⟩
        exact ⟨_, draft, bind_eq_error.2 (.inr ⟨code, draft, hrun, hcheck⟩)⟩

/-- No other stage fails: the error is a refusal by the pool or the check of the body's length. -/
theorem error_of_build {e : Error} (h : build table target = .error e) :
    e.IsRefusal ∨
      65535 < bodySize table target ∧ e = .malformed (.bodyTooLong (bodySize table target)) := by
  obtain ⟨pool, hrun⟩ := build_eq_error.1 h
  rcases bind_eq_error.1 hrun with hrequest | ⟨code, draft, hrequest, hcheck⟩
  · exact .inl ((classRequest_onlyRefuses table target .empty).of_error hrequest)
  · obtain ⟨hlong, rfl, -⟩ := checkBody_eq_error.1 hcheck
    rw [← (classRequest_ok hrequest).2.2]
    exact .inr ⟨hlong, rfl⟩

/-- A class that is built has exactly the constants that the table needs, and a body of the size
    that they determine. -/
theorem size_of_build {bytes : List UInt8} (h : build table target = .ok bytes) :
    ∃ file method body, ClassFile.ofBytes bytes = .ok file ∧ file.initializer? = some method ∧
      method.body = some body ∧ file.pool.size = (neededConstants table target).length + 1 ∧
      body.code.length = bodySize table target := by
  obtain ⟨file, maxStack, code, pool, hread, hmethods, hpool, hrequest⟩ := build_answered h
  obtain ⟨-, hlists, hlength⟩ := classRequest_ok hrequest
  refine ⟨file, initializerMethod maxStack code, ⟨maxStack, 0, code⟩, hread, ?_, rfl, ?_, hlength⟩
  · simp [ClassFile.initializer?, ClassFile.method?, hmethods, initializerMethod]
  · rw [hpool, frozen_size, PoolDraft.count_toNat, hlists.length]

/-- A table cannot be written as a class exactly if a name is too long, the distinct constants that
    the class needs do not fit into a pool, or the body of the initialiser is too long, and there
    are no errors besides those of these three limits. So the other stages never fail: every
    initialiser has a depth, at most four, each of its instructions has a form, and so has every
    constant of the pool. A class that is built holds exactly the constants and a body of that
    size. -/
theorem build_fails_iff (table : SymbolTable) (target : Target) :
    ((∃ e, build table target = .error e) ↔ HasLongName table target ∨
      65533 < (neededConstants table target).length ∨ 65535 < bodySize table target) ∧
    (∀ e, build table target = .error e →
      (∃ n, 65535 < n ∧ e = .format (.utf8TooLong n)) ∨ e = .format .poolFull ∨
        65535 < bodySize table target ∧ e = .malformed (.bodyTooLong (bodySize table target))) ∧
    (∃ depth, Instruction.maxStack (initializer table target.className) = .ok depth ∧ depth ≤ 4) ∧
    ∀ bytes, build table target = .ok bytes → ∃ file method body,
      ClassFile.ofBytes bytes = .ok file ∧ file.initializer? = some method ∧
      method.body = some body ∧ file.pool.size = (neededConstants table target).length + 1 ∧
      body.code.length = bodySize table target := by
  refine ⟨?_, fun e h => ?_, maxStack_initializer table _, fun bytes h => size_of_build h⟩
  · rw [← or_assoc, ← not_hasRoom_needed_iff, ← checked_fails_iff]
    simp only [build_eq_error]
  · rcases error_of_build h with (hfull | hlong) | hbody
    · exact .inr (.inl hfull)
    · exact .inl hlong
    · exact .inr (.inr hbody)

/-- A name of `2 ^ n` bytes. -/
def nameOfSize : Nat → String
  | 0 => "R"
  | n + 1 => nameOfSize n ++ nameOfSize n

theorem utf8ByteSize_nameOfSize : ∀ n, (nameOfSize n).utf8ByteSize = 2 ^ n
  | 0 => rfl
  | n + 1 => by
    rw [nameOfSize, String.utf8ByteSize_append, utf8ByteSize_nameOfSize n, Nat.pow_succ,
      Nat.mul_two]

theorem build_fails_iff_sample :
    (∃ bytes file method body, build sampleTable defaultTarget = .ok bytes ∧
      ClassFile.ofBytes bytes = .ok file ∧ file.initializer? = some method ∧
      method.body = some body ∧ file.pool.size = 19 ∧ body.code.length = 28) ∧
    ∃ e, build sampleTable ⟨nameOfSize 16, 50⟩ = .error e ∧
      ((∃ n, 65535 < n ∧ e = .format (.utf8TooLong n)) ∨ e = .format .poolFull ∨
        ∃ n, e = .malformed (.bodyTooLong n)) := by
  have hconstants : (neededConstants sampleTable defaultTarget).length = 18 := by decide +kernel
  have hsize : bodySize sampleTable defaultTarget = 28 := by decide +kernel
  obtain ⟨hfails, -, -, hbuilt⟩ := build_fails_iff sampleTable defaultTarget
  obtain ⟨hfails', herrors, -⟩ := build_fails_iff sampleTable ⟨nameOfSize 16, 50⟩
  constructor
  · cases hbuild : build sampleTable defaultTarget with
    | error e =>
      rcases hfails.1 ⟨e, hbuild⟩ with hlong | hmany | hbody
      · exact absurd hlong (by decide +kernel)
      · omega
      · omega
    | ok bytes =>
      obtain ⟨file, method, body, hread, hmethod, hbody, hpool, hcode⟩ := hbuilt bytes hbuild
      rw [hconstants] at hpool
      rw [hsize] at hcode
      exact ⟨bytes, file, method, body, rfl, hread, hmethod, hbody, hpool, hcode⟩
  · have hlong : 65535 < (nameOfSize 16).utf8ByteSize := by
      rw [utf8ByteSize_nameOfSize]
      decide
    obtain ⟨e, he⟩ := hfails'.2 (.inl (.inl hlong))
    exact ⟨e, he, (herrors e he).imp_right fun h => h.imp_right fun hbody => ⟨_, hbody.2⟩⟩

end ResourceMerge.MergedClass

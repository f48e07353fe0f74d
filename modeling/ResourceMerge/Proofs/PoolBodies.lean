import ResourceMerge.Proofs.ArrayCode
import ResourceMerge.Proofs.PoolHistory

/-! Method bodies against a constant pool that keeps growing. A body is encoded against the pool as
    it is then, and decoded against the pool that is read back from any later state; it decodes to
    what its instructions are reread as. Decoding itself makes only instructions that are reread as
    they are, so what was decoded once, and holds nothing uninterpreted, is reproduced by encoding
    and decoding, as long as the pool has room for the constants and fields that it names. -/

namespace ResourceMerge

open Binary PoolDraft

/-! ### Instructions as decoding makes them -/

/-- The instruction is one that decoding makes and encoding has a form for: its operand is in the
    range of its form, and the field that it stores into is an array of integers. -/
def Instruction.IsCanonical : Instruction → Prop
  | .pushSmall v => 0 ≤ v ∧ v ≤ 5
  | .pushByte v => -128 ≤ v ∧ v ≤ 127
  | .pushShort v => -32768 ≤ v ∧ v ≤ 32767
  | .storeField field => field.descriptor = intArrayDescriptor
  | .other _ => False
  | _ => True

/-- The item whose slot an instruction names. -/
def Instruction.item? : Instruction → Option Item
  | .pushConstant v => some (.integer v)
  | .storeField field => some (.fieldRef field)
  | _ => none

/-- Encoding has a form for the instruction, which may not hold all of its operand. -/
def Instruction.HasForm : Instruction → Prop
  | .pushSmall v => 0 ≤ v ∧ v ≤ 5
  | .other _ => False
  | _ => True

theorem Instruction.IsCanonical.hasForm {insn : Instruction} (h : insn.IsCanonical) :
    insn.HasForm := by
  cases insn with
  | pushSmall v => exact h
  | other op => exact h
  | _ => trivial

/-- The number of bytes of an instruction, by the slot that it names. Only a low slot has a short
    form, and only for constants. -/
def Instruction.size (slot : Nat) : Instruction → Nat
  | .pushSmall _ | .dup | .arrayStore | .finish | .other _ => 1
  | .pushByte _ | .newIntArray => 2
  | .pushConstant _ => if slot ≤ 255 then 2 else 3
  | .pushShort _ | .storeField _ => 3

/-- The number of bytes that the instruction takes where its item has its slot in the pool. -/
def Instruction.Takes (pool : ConstantPool) (insn : Instruction) (n : Nat) : Prop :=
  ∃ i : UInt16, (∀ item ∈ insn.item?, item.At pool i) ∧ n = insn.size i.toNat

/-- An instruction without an item takes the same everywhere. -/
theorem Instruction.Takes.unnamed {insn : Instruction} (pool : ConstantPool)
    (h : insn.item? = none) : insn.Takes pool (insn.size 0) :=
  ⟨0, by simp [h], rfl⟩

theorem Instruction.Takes.within {insn : Instruction} {pool later : ConstantPool} {n : Nat}
    (h : insn.Takes pool n) (hwithin : pool.Within later) : insn.Takes later n := by
  obtain ⟨i, hitem, hn⟩ := h
  exact ⟨i, fun item hmem => (hitem item hmem).within hwithin, hn⟩

theorem Instruction.reread_of_isCanonical {insn : Instruction} (h : insn.IsCanonical) :
    insn.reread = insn := by
  cases insn with
  | pushByte v =>
    simp only [IsCanonical, Int32.le_iff_toInt_le, Int32.reduceToInt] at h
    rw [reread, MergedClass.toInt8_toInt32 h.1 h.2]
  | pushShort v =>
    simp only [IsCanonical, Int32.le_iff_toInt_le, Int32.reduceToInt] at h
    rw [reread, MergedClass.toInt16_toInt32 h.1 h.2]
  | storeField field => exact if_pos h
  | _ => rfl

namespace MethodBody

variable {pool : ConstantPool} {insn : Instruction} {insns : List Instruction} {code : List UInt8}
  {draft : PoolDraft} {items : List Item}

/-! ### What decoding makes -/

/-- A number lies between two others if its value lies between theirs. -/
theorem between_of_toInt {v low high : Int32} {n : Int} (hv : v.toInt = n) (hlow : low.toInt ≤ n)
    (hhigh : n < high.toInt + 1) : low ≤ v ∧ v ≤ high := by
  rw [Int32.le_iff_toInt_le, Int32.le_iff_toInt_le, hv]
  exact ⟨hlow, Int.le_of_lt_add_one hhigh⟩

theorem isCanonical_pushSmall {op : UInt8} (h : Opcode.intConstant0 ≤ op ∧ op ≤ Opcode.intConstant5) :
    (Instruction.pushSmall (Int32.ofNat (op - Opcode.intConstant0).toNat)).IsCanonical := by
  have hhigh : op.toNat ≤ 8 := UInt8.le_iff_toNat_le.1 h.2
  have hvalue : (op - Opcode.intConstant0).toNat = op.toNat - 3 := UInt8.toNat_sub_of_le _ _ h.1
  have hint : (Int32.ofNat (op.toNat - 3)).toInt = (op.toNat - 3 : Nat) :=
    Int32.toInt_ofNat_of_lt (by omega)
  rw [hvalue]
  exact between_of_toInt hint (Int.natCast_nonneg _) (by simp only [Int32.reduceToInt]; omega)

theorem isCanonical_pushByte (v : Int8) : (Instruction.pushByte v.toInt32).IsCanonical :=
  between_of_toInt (Int8.toInt_toInt32 v) v.le_toInt v.toInt_lt

theorem isCanonical_pushShort (v : Int16) : (Instruction.pushShort v.toInt32).IsCanonical :=
  between_of_toInt (Int16.toInt_toInt32 v) v.le_toInt v.toInt_lt

/-- The reader makes instructions that encoding has a form for, and uninterpreted ones. -/
def Makes (r : Reader Instruction) : Prop :=
  ∀ c insn c', r c = .ok insn c' → insn.IsCanonical ∨ ∃ op, insn = .other op

namespace Makes

theorem canonical (h : insn.IsCanonical) : Makes (pure insn) := by
  rintro c _ c' ⟨⟩
  exact .inl h

theorem other (op : UInt8) : Makes (pure (.other op)) := by
  rintro c _ c' ⟨⟩
  exact .inr ⟨op, rfl⟩

theorem bind {α : Type} {r : Reader α} {f : α → Reader Instruction} (hf : ∀ a, Makes (f a)) :
    Makes (r >>= f) := by
  intro c insn c' h
  obtain ⟨a, middle, -, h⟩ := bind_eq_ok.1 h
  exact hf a middle insn c' h

theorem ite {p : Prop} [Decidable p] {r r' : Reader Instruction} (h : p → Makes r)
    (h' : ¬p → Makes r') : Makes (if p then r else r') := by
  by_cases hp : p
  · rw [if_pos hp]
    exact h hp
  · rw [if_neg hp]
    exact h' hp

end Makes

theorem loadConstant_makes (op : UInt8) (i : UInt16) : Makes (loadConstant pool op i) := by
  refine .bind fun value? => ?_
  cases value? with
  | some v => exact .canonical trivial
  | none => exact .other op

theorem readInstruction_makes : Makes (readInstruction pool) := by
  refine .bind fun start => .bind fun op => ?_
  rw [readOperands]
  refine .ite (fun hsmall => .canonical (isCanonical_pushSmall hsmall)) fun _ => ?_
  refine .ite (fun _ => .bind fun v => .canonical (isCanonical_pushByte v)) fun _ => ?_
  refine .ite (fun _ => .bind fun v => .canonical (isCanonical_pushShort v)) fun _ => ?_
  refine .ite (fun _ => .bind fun i => loadConstant_makes op i.toUInt16) fun _ => ?_
  refine .ite (fun _ => .bind fun i => loadConstant_makes op i) fun _ => ?_
  refine .ite (fun _ => .bind fun element => ?_) fun _ => ?_
  · exact .ite (fun _ => .canonical trivial) fun _ => .other op
  refine .ite (fun _ => .canonical trivial) fun _ => ?_
  refine .ite (fun _ => .canonical trivial) fun _ => ?_
  refine .ite (fun _ => .bind fun i => .bind fun field => ?_) fun _ => ?_
  · exact .ite (fun hdescriptor => .canonical hdescriptor) fun _ => .other op
  refine .ite (fun _ => .canonical trivial) fun _ => ?_
  exact .bind fun _ => .other op

theorem readAllOnto_makes : ∀ {rounds : Nat} {done : List Instruction} {c c' : Cursor},
    readAllOnto pool done rounds c = .ok insns c' →
    (∀ insn ∈ done, insn.IsCanonical ∨ ∃ op, insn = .other op) →
    ∀ insn ∈ insns, insn.IsCanonical ∨ ∃ op, insn = .other op
  | 0, done, c, c', h, hdone => by
    cases h
    simpa using hdone
  | rounds + 1, done, c, c', h, hdone => by
    obtain ⟨start, _, -, h⟩ := bind_eq_ok.1 h
    split at h
    · cases h
      simpa using hdone
    · obtain ⟨insn, _, hinsn, h⟩ := bind_eq_ok.1 h
      refine readAllOnto_makes h ?_
      rw [List.forall_mem_cons]
      exact ⟨readInstruction_makes _ _ _ hinsn, hdone⟩

/-- Decoding makes instructions that encoding has a form for, and uninterpreted ones. -/
theorem decode_makes (h : decode pool code = .ok insns) :
    ∀ insn ∈ insns, insn.IsCanonical ∨ ∃ op, insn = .other op := by
  unfold decode Reader.read at h
  split at h
  · rename_i hread
    cases h
    exact readAllOnto_makes hread (by simp)
  · cases h

/-! ### What encoding asks the pool for -/

/-- The parts of the items whose slots instructions name. -/
def named (insns : List Instruction) : List Item :=
  (insns.filterMap Instruction.item?).flatMap Item.parts

theorem encodeInstruction_tracks (hlists : Lists draft items) (h : insn.HasForm) :
    Tracks (encodeInstruction insn) draft items (named [insn])
      fun bytes pool => insn.Takes pool bytes.length := by
  cases insn with
  | pushSmall v =>
    have hsmall : 0 ≤ v ∧ v ≤ 5 := h
    rw [encodeInstruction, if_pos hsmall]
    exact .pure hlists (.unnamed _ rfl)
  | pushConstant v =>
    have hnamed : named [.pushConstant v] = (Item.integer v).parts ++ [] := rfl
    rw [hnamed]
    refine (ask_tracks hlists (.integer v)).bind fun i later items' _ hlists' hat => ?_
    have hitem : ∀ item ∈ (Instruction.pushConstant v).item?, item.At later.frozen i := by
      rintro _ ⟨⟩
      exact hat
    have hbyte : i ≤ 255 ↔ i.toNat ≤ 255 := UInt16.le_iff_toNat_le
    split
    · rename_i hlow
      exact .pure hlists' ⟨i, hitem, (if_pos (hbyte.1 hlow)).symm⟩
    · rename_i hhigh
      exact .pure hlists' ⟨i, hitem, (if_neg (mt hbyte.2 hhigh)).symm⟩
  | storeField field =>
    have hnamed : named [.storeField field] = (Item.fieldRef field).parts ++ [] := rfl
    rw [hnamed]
    refine (ask_tracks hlists (.fieldRef field)).bind fun i later items' _ hlists' hat => ?_
    refine .pure hlists' ⟨i, ?_, rfl⟩
    rintro _ ⟨⟩
    exact hat
  | other op => exact h.elim
  | _ => exact .pure hlists (.unnamed _ rfl)

theorem encodeInstructions_tracks : ∀ {insns : List Instruction} {draft : PoolDraft}
    {items : List Item}, Lists draft items → (∀ insn ∈ insns, insn.HasForm) →
    Tracks (insns.mapM encodeInstruction) draft items (named insns) fun chunks pool =>
      List.Forall₂ (fun insn chunk => insn.Takes pool (List.length chunk)) insns chunks
  | [], draft, items, hlists, _ => .pure hlists .nil
  | insn :: insns, draft, items, hlists, h => by
    obtain ⟨hinsn, hinsns⟩ := List.forall_mem_cons.1 h
    have hnamed : named (insn :: insns) = named [insn] ++ (named insns ++ []) := by
      rw [List.append_nil, named, named, named, ← List.flatMap_append, ← List.filterMap_append,
        List.singleton_append]
    rw [List.mapM_cons, hnamed]
    refine (encodeInstruction_tracks hlists hinsn).bind fun bytes middle items' _ hlists' hsize => ?_
    refine (encodeInstructions_tracks hlists' hinsns).bind
      fun chunks later items'' hgrows hlists'' hsizes => ?_
    exact .pure hlists'' (.cons (hsize.within hgrows.within) hsizes)

/-- A body takes the bytes of its instructions. -/
theorem encode_tracks (hlists : Lists draft items) (h : ∀ insn ∈ insns, insn.HasForm) :
    Tracks (encode insns) draft items (named insns) fun code pool => ∃ sizes,
      List.Forall₂ (Instruction.Takes pool) insns sizes ∧ code.length = sizes.sum := by
  have hall : Tracks (encode insns) draft items (named insns ++ []) fun code pool => ∃ sizes,
      List.Forall₂ (Instruction.Takes pool) insns sizes ∧ code.length = sizes.sum := by
    refine (encodeInstructions_tracks hlists h).bind fun chunks later items' _ hlists' hsizes => ?_
    refine .pure hlists' ⟨chunks.map List.length, ?_, by simp⟩
    exact List.forall₂_map_right_iff.2 hsizes
  rwa [List.append_nil] at hall

/-- Instructions that have a form are encoded exactly if the pool has room for what they name. -/
theorem encode_succeeds_iff {requests : List Item} (h : ∀ insn ∈ insns, insn.IsCanonical) :
    (∃ code draft, encode insns (ofRequests requests) = .ok code draft) ↔
      HasRoom (uses requests) (named insns) := by
  have hlists := (ofRequests_reached requests).lists
  have htracks := encode_tracks hlists fun insn hinsn => (h insn hinsn).hasForm
  exact htracks.succeeds_iff (nodup_uses requests) (length_uses_le requests)

/-! ### Later pools -/

theorem encodeInstruction_leads (insn : Instruction) (draft : PoolDraft) :
    Ends (encodeInstruction insn) draft (fun _ later => Leads draft later)
      (fun _ later => Leads draft later) := by
  cases insn with
  | pushSmall v =>
    rw [encodeInstruction]
    split
    · exact .pure (.refl draft)
    · exact .throw (.refl draft)
  | pushConstant v =>
    refine (ask_leads (.integer v) draft).andThen (fun i later h => ?_) fun _ _ h => h
    split
    · exact .pure h
    · exact .pure h
  | storeField field =>
    exact (ask_leads (.fieldRef field) draft).andThen (fun i later h => .pure h) fun _ _ h => h
  | other op => exact .throw (.refl draft)
  | _ => exact .pure (.refl draft)

theorem encodeInstructions_leads : ∀ (insns : List Instruction) (draft : PoolDraft),
    Ends (insns.mapM encodeInstruction) draft (fun _ later => Leads draft later)
      (fun _ later => Leads draft later)
  | [], draft => .pure (.refl draft)
  | insn :: insns, draft => by
    rw [List.mapM_cons]
    refine (encodeInstruction_leads insn draft).andThen (fun bytes middle hmiddle => ?_)
      fun _ _ h => h
    exact (encodeInstructions_leads insns middle).andThen
      (fun chunks later hlater => .pure (hmiddle.trans hlater)) fun _ _ h => hmiddle.trans h

/-- Encoding makes requests of the pool, and nothing else. -/
theorem encode_leads (insns : List Instruction) (draft : PoolDraft) :
    Ends (encode insns) draft (fun _ later => Leads draft later)
      (fun _ later => Leads draft later) :=
  (encodeInstructions_leads insns draft).andThen (fun _ _ h => .pure h) fun _ _ h => h

/-- A pool that requests left, and every later one, is written and read back with its entries. -/
theorem written_of_leads {requests : List Item} {later : PoolDraft}
    (h : Leads (ofRequests requests) later) :
    ∃ bytes, later.write = .ok bytes ∧ ConstantPool.read.read bytes = .ok later.frozen := by
  obtain ⟨more, rfl⟩ := h
  have hreached := (Reached.foldl_after more (ofRequests_reached requests)).2
  obtain ⟨bytes, hwrite, hreads⟩ := write_reads hreached.writable
  exact ⟨bytes, hwrite, hreads.read⟩

/-- What was encoded against a pool decodes against every later one. -/
theorem decode_later {requests : List Item}
    (h : encode insns (ofRequests requests) = .ok code draft) (further : List Item) :
    ∃ bytes pool, (further.foldl after draft).write = .ok bytes ∧
      ConstantPool.read.read bytes = .ok pool ∧
      decode pool code = .ok (insns.map Instruction.reread) := by
  have hleads := (encode_leads insns (ofRequests requests)).of_ok h
  obtain ⟨bytes, hwrite, hread⟩ := written_of_leads (hleads.trans ⟨further, rfl⟩)
  obtain ⟨-, -, hdecode, -⟩ := (encode_ends insns (ofRequests requests)).of_ok h
  obtain ⟨more, rfl⟩ := hleads
  have hreached := (Reached.foldl_after more (ofRequests_reached requests)).2
  have hgrows := (Reached.foldl_after further hreached).1
  exact ⟨bytes, _, hwrite, hread, hdecode _ hgrows.within⟩

/-! ### Bodies that are reproduced -/

/-- Encoding makes requests of the pool, and nothing else. What it encoded decodes, against the pool
    that is read back from any later state, to what its instructions are reread as. Whatever
    decoding makes, if all of it is interpreted, has the forms that encoding has; instructions of
    these forms are encoded exactly if the pool has room for what they name, and then decode to
    themselves. -/
theorem encode_reread :
    (∀ requests insns, Ends (encode insns) (ofRequests requests)
      (fun _ draft => ∃ more, draft = ofRequests (requests ++ more))
      (fun _ draft => ∃ more, draft = ofRequests (requests ++ more))) ∧
    (∀ requests insns code draft, encode insns (ofRequests requests) = .ok code draft →
      ∀ further : List Item, ∃ bytes pool, (further.foldl after draft).write = .ok bytes ∧
        ConstantPool.read.read bytes = .ok pool ∧
        decode pool code = .ok (insns.map Instruction.reread)) ∧
    (∀ pool code insns, decode pool code = .ok insns → (∀ op, Instruction.other op ∉ insns) →
      ∀ insn ∈ insns, insn.IsCanonical) ∧
    ∀ insns, (∀ insn ∈ insns, Instruction.IsCanonical insn) → ∀ requests,
      ((∃ code draft, encode insns (ofRequests requests) = .ok code draft) ↔
        HasRoom (uses requests) (named insns)) ∧
      ∀ code draft, encode insns (ofRequests requests) = .ok code draft →
        ∀ further : List Item, ∃ bytes pool, (further.foldl after draft).write = .ok bytes ∧
          ConstantPool.read.read bytes = .ok pool ∧ decode pool code = .ok insns := by
  refine ⟨fun requests insns => ?_, fun requests insns code draft h => decode_later h,
    fun pool code insns h hinterpreted insn hinsn => ?_, fun insns h requests => ⟨?_, ?_⟩⟩
  · have hmore : ∀ {later}, Leads (ofRequests requests) later →
        ∃ more, later = ofRequests (requests ++ more) := by
      rintro _ ⟨more, rfl⟩
      exact ⟨more, by rw [ofRequests, ofRequests, List.foldl_append]⟩
    exact (encode_leads insns (ofRequests requests)).mono (fun _ _ => hmore) fun _ _ => hmore
  · rcases decode_makes h insn hinsn with hcanonical | ⟨op, rfl⟩
    · exact hcanonical
    · exact absurd hinsn (hinterpreted op)
  · exact encode_succeeds_iff h
  · intro code draft hencode further
    have hsame : insns.map Instruction.reread = insns :=
      (List.map_congr_left fun insn hinsn => Instruction.reread_of_isCanonical (h insn hinsn)).trans
        (List.map_id insns)
    have hlater := decode_later hencode further
    rwa [hsame] at hlater

/-- A byte push whose operand is too narrow, and a store into a field that is no array. -/
def sampleBody : List Instruction :=
  [.pushByte 300, .pushConstant 70000, .storeField ⟨"R", "a", "I"⟩, .finish]

theorem encode_reread_sample :
    ∃ code draft bytes pool, encode sampleBody (ofRequests sampleRequests) = .ok code draft ∧
      code = [16, 44, 18, 7, 179, 0, 15, 177] ∧
      (after draft (.integer 9)).write = .ok bytes ∧ ConstantPool.read.read bytes = .ok pool ∧
      decode pool code = .ok [.pushByte 44, .pushConstant 70000, .other 0xb3, .finish] ∧
      ∃ code' draft' bytes' pool',
        encode [.pushByte 44, .pushConstant 70000, .finish] (ofRequests []) = .ok code' draft' ∧
        draft'.write = .ok bytes' ∧ ConstantPool.read.read bytes' = .ok pool' ∧
        decode pool' code' = .ok [.pushByte 44, .pushConstant 70000, .finish] := by
  have hbody : endsIn (fun code _ => code = [16, 44, 18, 7, 179, 0, 15, 177])
      (encode sampleBody (ofRequests sampleRequests)) = true := by
    decide +kernel
  have hcanonical : ∀ insn ∈ [Instruction.pushByte 44, .pushConstant 70000, .finish],
      insn.IsCanonical := by
    have hbyte : -128 ≤ (44 : Int32) ∧ (44 : Int32) ≤ 127 := by decide
    simp only [List.forall_mem_cons]
    exact ⟨hbyte, trivial, trivial, nofun⟩
  obtain ⟨code, draft, hencode, hcode⟩ := exists_of_endsIn hbody
  obtain ⟨-, hlater, -, hsame⟩ := encode_reread
  obtain ⟨bytes, pool, hwrite, hread, hdecode⟩ :=
    hlater sampleRequests sampleBody code draft hencode [.integer 9]
  obtain ⟨hroom, hreproduced⟩ := hsame _ hcanonical []
  obtain ⟨code', draft', hencode'⟩ := hroom.2 ⟨by decide, by decide⟩
  obtain ⟨bytes', pool', hwrite', hread', hdecode'⟩ := hreproduced code' draft' hencode' []
  exact ⟨code, draft, bytes, pool, hencode, of_decide_eq_true hcode, hwrite, hread, hdecode,
    code', draft', bytes', pool', hencode', hwrite', hread', hdecode'⟩

end MethodBody

end ResourceMerge

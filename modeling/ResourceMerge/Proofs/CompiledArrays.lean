import ResourceMerge.Proofs.ArrayReplay
import ResourceMerge.Proofs.BodyDecoding

/-! Array initialisers as a Java compiler writes them: each number is pushed by the shortest
    instruction there is for it. Among these is an opcode of its own for minus one, which the
    decoder does not tell apart. It is stepped over like any other, so the number is missing on the
    stack when it is to be stored. All other numbers arrive, whatever form they are pushed in, and
    an initialiser without a minus one among its values is replayed exactly. -/

namespace ResourceMerge

open Binary Initializer

/-- The slots of the pool that a compiled initialiser refers to: those of its constants and, by
    their names, those of the fields. -/
structure CompiledSlots where
  constant : Int32 → UInt16
  field : String → UInt16

namespace CompiledSlots

variable (slots : CompiledSlots)

/-- The number fits a 16-bit operand. -/
def IsShort (v : Int32) : Prop := -32768 ≤ v ∧ v ≤ 32767

instance (v : Int32) : Decidable (IsShort v) := inferInstanceAs (Decidable (_ ∧ _))

/-- The shortest push of a number. -/
def push (v : Int32) : CodeUnit :=
  if -1 ≤ v ∧ v ≤ 5 then ⟨UInt8.ofNat (v.toInt + 3).toNat, []⟩
  else if -128 ≤ v ∧ v ≤ 127 then ⟨0x10, [v.toInt8.toUInt8]⟩
  else if IsShort v then ⟨0x11, u16 v.toInt16.toUInt16⟩
  else if slots.constant v ≤ 255 then ⟨0x12, [(slots.constant v).toUInt8]⟩
  else ⟨0x13, u16 (slots.constant v)⟩

/-- Writes one element: copies the reference, pushes index and value, and stores. -/
def element (element : Int32 × Nat) : List CodeUnit :=
  [⟨0x59, []⟩, slots.push (.ofNat element.2), slots.push element.1, ⟨0x4f, []⟩]

/-- Builds one array of integers and puts it into its field. -/
def array (entry : String × List Int32) : List CodeUnit :=
  slots.push (.ofNat entry.2.length) :: ⟨0xbc, [10]⟩
    :: (entry.2.zipIdx.flatMap slots.element ++ [⟨0xb3, u16 (slots.field entry.1)⟩])

/-- Builds all arrays and returns. -/
def units (arrays : List (String × List Int32)) : List CodeUnit :=
  arrays.flatMap slots.array ++ [⟨0xb1, []⟩]

/-- The bytes of the initialiser. -/
def body (arrays : List (String × List Int32)) : List UInt8 :=
  (slots.units arrays).flatMap CodeUnit.bytes

/-- The pool has what the initialiser refers to: the numbers that no operand holds, and a field of
    the owner for each array. -/
structure Serves (pool : ConstantPool) (owner : String) (arrays : List (String × List Int32)) :
    Prop where
  constant : ∀ entry ∈ arrays, ∀ v ∈ entry.2, ¬IsShort v → pool.Holds (slots.constant v) (.integer v)
  field : ∀ entry ∈ arrays, pool.HoldsField (slots.field entry.1) ⟨owner, entry.1, "[I"⟩

end CompiledSlots

/-! ### What is decoded -/

namespace CompiledArrays

/-- What the push of a number is decoded to. -/
def push (v : Int32) : Instruction :=
  if v = -1 then .other 0x02
  else if 0 ≤ v ∧ v ≤ 5 then .pushSmall v
  else if -128 ≤ v ∧ v ≤ 127 then .pushByte v
  else if CompiledSlots.IsShort v then .pushShort v
  else .pushConstant v

/-- The pushes of an element. -/
def pushes (element : Int32 × Nat) : Instruction × Instruction :=
  (push (.ofNat element.2), push element.1)

/-- The instructions of an array. -/
def array (owner : String) (entry : String × List Int32) : List Instruction :=
  arrayCode (push (.ofNat entry.2.length)) (entry.2.zipIdx.map pushes) (.intArray owner entry.1)

/-- The instructions of the initialiser. -/
def instructions (owner : String) (arrays : List (String × List Int32)) : List Instruction :=
  arrays.flatMap (array owner) ++ [.finish]

variable {slots : CompiledSlots} {pool : ConstantPool} {owner : String}
  {arrays : List (String × List Int32)} {entry : String × List Int32} {v : Int32}

/-- Every number but minus one is pushed. -/
theorem push_pushes (h : v ≠ -1) : (push v).Pushes v := by
  rw [push, if_neg h]
  unfold Instruction.Pushes
  split
  · simp
  split
  · simp
  split
  · simp
  · simp

/-- The numbers with an opcode of their own. -/
theorem small_cases (h : -1 ≤ v ∧ v ≤ 5) :
    v = -1 ∨ v = 0 ∨ v = 1 ∨ v = 2 ∨ v = 3 ∨ v = 4 ∨ v = 5 := by
  simp only [Int32.le_iff_toInt_le, ← Int32.toInt_inj, Int32.reduceToInt] at h ⊢
  omega

/-- A push means what it is decoded to. -/
theorem means_push
    (hconstant : ¬CompiledSlots.IsShort v → pool.Holds (slots.constant v) (.integer v)) :
    CodeUnit.Means pool (slots.push v) (push v) := by
  by_cases hsmall : -1 ≤ v ∧ v ≤ 5
  · rcases small_cases hsmall with rfl | rfl | rfl | rfl | rfl | rfl | rfl
    · have hother : (0x02 : UInt8) ∉ CodeUnit.interpreted := by decide
      exact @CodeUnit.Means.other pool ⟨0x02, []⟩ hother
    · exact @CodeUnit.Means.small pool 0 (by decide)
    · exact @CodeUnit.Means.small pool 1 (by decide)
    · exact @CodeUnit.Means.small pool 2 (by decide)
    · exact @CodeUnit.Means.small pool 3 (by decide)
    · exact @CodeUnit.Means.small pool 4 (by decide)
    · exact @CodeUnit.Means.small pool 5 (by decide)
  have hminus : v ≠ -1 := by
    rintro rfl
    exact hsmall (by decide)
  have hnonneg : ¬(0 ≤ v ∧ v ≤ 5) := fun h => hsmall ⟨Int32.le_trans (by decide) h.1, h.2⟩
  rw [CompiledSlots.push, push, if_neg hsmall, if_neg hminus, if_neg hnonneg]
  by_cases hbyte : -128 ≤ v ∧ v ≤ 127
  · rw [if_pos hbyte, if_pos hbyte]
    have hmeans := @CodeUnit.Means.byte pool v.toInt8
    rwa [MergedClass.toInt8_toInt32 (Int32.le_iff_toInt_le.1 hbyte.1)
      (Int32.le_iff_toInt_le.1 hbyte.2)] at hmeans
  rw [if_neg hbyte, if_neg hbyte]
  by_cases hshort : CompiledSlots.IsShort v
  · rw [if_pos hshort, if_pos hshort]
    have hmeans := @CodeUnit.Means.short pool v.toInt16
    rwa [MergedClass.toInt16_toInt32 (Int32.le_iff_toInt_le.1 hshort.1)
      (Int32.le_iff_toInt_le.1 hshort.2)] at hmeans
  rw [if_neg hshort, if_neg hshort]
  by_cases hnarrow : slots.constant v ≤ 255
  · rw [if_pos hnarrow]
    refine .constant ?_
    rw [MethodBody.toUInt8_toUInt16_of_le hnarrow]
    exact hconstant hshort
  · rw [if_neg hnarrow]
    exact .wideConstant (hconstant hshort)

theorem complete_push (pc : Nat) : (slots.push v).Complete pc := by
  unfold CompiledSlots.push
  split
  · rename_i hsmall
    rcases small_cases hsmall with rfl | rfl | rfl | rfl | rfl | rfl | rfl <;>
      exact MethodBody.complete_of_fixed 0 rfl rfl
  split
  · exact MethodBody.complete_of_fixed 1 rfl rfl
  split
  · exact MethodBody.complete_of_fixed 2 rfl rfl
  split
  · exact MethodBody.complete_of_fixed 1 rfl rfl
  · exact MethodBody.complete_of_fixed 2 rfl rfl

/-- All instructions of an initialiser are complete, wherever they stand. -/
theorem complete_of_mem_units {u : CodeUnit} (h : u ∈ slots.units arrays) (pc : Nat) :
    u.Complete pc := by
  simp only [CompiledSlots.units, CompiledSlots.array, CompiledSlots.element, List.mem_append,
    List.mem_flatMap, List.mem_cons, List.not_mem_nil, or_false] at h
  rcases h with ⟨entry, -, rfl | rfl | ⟨place, -, rfl | rfl | rfl | rfl⟩ | rfl⟩ | rfl
  · exact complete_push pc
  · exact MethodBody.complete_of_fixed 1 rfl rfl
  · exact MethodBody.complete_of_fixed 0 rfl rfl
  · exact complete_push pc
  · exact complete_push pc
  · exact MethodBody.complete_of_fixed 0 rfl rfl
  · exact MethodBody.complete_of_fixed 2 rfl rfl
  · exact MethodBody.complete_of_fixed 0 rfl rfl

/-- Lengths and indices of arrays that fit a body need no constant. -/
theorem isShort_ofNat {n : Nat} (h : n ≤ 32767) : CompiledSlots.IsShort (.ofNat n) := by
  have hnat : (Int32.ofNat n).toInt = n := Int32.toInt_ofNat_of_lt (by omega)
  simp only [CompiledSlots.IsShort, Int32.le_iff_toInt_le, hnat, Int32.reduceToInt]
  omega

theorem means_element {place : Int32 × Nat} (hindex : place.2 ≤ 32767)
    (hconstant : ¬CompiledSlots.IsShort place.1 →
      pool.Holds (slots.constant place.1) (.integer place.1)) :
    List.Forall₂ (CodeUnit.Means pool) (slots.element place) (elementCode (pushes place)) :=
  .cons .dup <| .cons (means_push fun h => absurd (isShort_ofNat hindex) h) <|
    .cons (means_push hconstant) <| .cons .arrayStore .nil

theorem means_array (hsize : entry.2.length ≤ 32767)
    (hconstant : ∀ v ∈ entry.2, ¬CompiledSlots.IsShort v →
      pool.Holds (slots.constant v) (.integer v))
    (hfield : pool.HoldsField (slots.field entry.1) ⟨owner, entry.1, "[I"⟩) :
    List.Forall₂ (CodeUnit.Means pool) (slots.array entry) (array owner entry) := by
  refine .cons (means_push fun h => absurd (isShort_ofNat hsize) h) (.cons .newIntArray ?_)
  rw [List.flatMap_map]
  have hplaces : List.Forall₂ (fun a b => a = b ∧ a ∈ entry.2.zipIdx) entry.2.zipIdx entry.2.zipIdx :=
    List.forall₂_same.2 fun place hplace => ⟨rfl, hplace⟩
  refine List.rel_append (List.rel_flatMap hplaces ?_) (.cons (.storeField hfield rfl) .nil)
  rintro place _ ⟨rfl, hplace⟩
  have hindex := List.snd_lt_of_mem_zipIdx hplace
  exact means_element (by omega) (hconstant _ (List.fst_mem_of_mem_zipIdx hplace))

/-- Every instruction takes a byte at least. -/
theorem length_le_flatMap_bytes : ∀ units : List CodeUnit,
    units.length ≤ (units.flatMap CodeUnit.bytes).length
  | [] => Nat.le_refl 0
  | u :: units => by
    have hrest := length_le_flatMap_bytes units
    rw [List.flatMap_cons, List.length_append, List.length_cons, CodeUnit.bytes, List.length_cons]
    omega

/-- An array is no longer than the body that builds it. -/
theorem length_le_of_mem (slots : CompiledSlots) (h : entry ∈ arrays) :
    4 * entry.2.length + 3 ≤ (slots.body arrays).length :=
  (MergedClass.length_le_of_mem slots.array (fun _ => rfl) (fun _ => rfl) h _).trans
    (length_le_flatMap_bytes _)

/-- What an initialiser is decoded to. -/
theorem decode_body (hserves : slots.Serves pool owner arrays)
    (hsize : (slots.body arrays).length ≤ 65535) :
    MethodBody.decode pool (slots.body arrays) = .ok (instructions owner arrays) := by
  have hsplits : Splits 0 (slots.body arrays) (slots.units arrays) :=
    splits_of_complete 0 fun u hu => complete_of_mem_units hu
  refine MethodBody.decode_eq_ok.2 ⟨_, hsplits, ?_⟩
  have hentries : List.Forall₂ (fun a b => a = b ∧ a ∈ arrays) arrays arrays :=
    List.forall₂_same.2 fun entry hentry => ⟨rfl, hentry⟩
  refine List.rel_append (List.rel_flatMap hentries ?_) (.cons .finish .nil)
  rintro entry _ ⟨rfl, hentry⟩
  have hlength := length_le_of_mem slots hentry
  exact means_array (by omega) (hserves.constant entry hentry) (hserves.field entry hentry)

/-! ### What is replayed -/

variable {rest : List Instruction} {table : SymbolTable} {committed : Nat}

theorem ofNat_ne_minus_one {n : Nat} (h : n ≤ 32767) : Int32.ofNat n ≠ -1 := by
  rintro heq
  have hnat : (Int32.ofNat n).toInt = n := Int32.toInt_ofNat_of_lt (by omega)
  simp only [heq, Int32.reduceToInt] at hnat
  omega

/-- Elements other than minus one are pushed. -/
theorem pushes_elements {values : List Int32} {index : Nat} (hvalues : -1 ∉ values)
    (hsize : index + values.length ≤ 32767) :
    List.Forall₂ PushesElement ((values.zipIdx index).map pushes) (values.zipIdx index) := by
  rw [List.forall₂_map_left_iff, List.forall₂_same]
  intro place hplace
  have hindex := List.snd_lt_of_mem_zipIdx hplace
  refine ⟨push_pushes (ofNat_ne_minus_one (by omega)), push_pushes ?_⟩
  rintro heq
  exact hvalues (heq ▸ List.fst_mem_of_mem_zipIdx hplace)

theorem array_builds (hvalues : -1 ∉ entry.2) (hsize : entry.2.length ≤ 32767) :
    Builds (array owner entry) entry :=
  arrayCode_builds (by omega) (push_pushes (ofNat_ne_minus_one hsize))
    (pushes_elements hvalues (by omega))

/-- The store of a minus one finds the index where the value should be, and the reference where the
    index should be. -/
theorem run_missing_element {index : Nat} (hindex : index ≤ 32767) {pending : PendingArray} :
    ∃ m, run (elementCode (pushes (-1, index)) ++ rest) ⟨[.array], some pending, table, committed⟩
      = .error (.malformed (.operandIsArray "iastore index")) m := by
  have hpush := push_pushes (ofNat_ne_minus_one hindex)
  change ∃ m, run (.dup :: push (.ofNat index) :: .other 0x02 :: .arrayStore :: rest) _ = _
  rw [run_moves .dup, run_moves (.push hpush), run_moves .other]
  exact ⟨_, rfl⟩

/-- An array with a minus one is not built. -/
theorem run_missing_array (hvalues : -1 ∈ entry.2) (hsize : entry.2.length ≤ 32767) :
    ∃ m, run (array owner entry ++ rest) ⟨[], none, table, committed⟩
      = .error (.malformed (.operandIsArray "iastore index")) m := by
  obtain ⟨before, behind, hsplit, hbefore⟩ := List.eq_append_cons_of_mem hvalues
  have hplaces : entry.2.zipIdx
      = before.zipIdx ++ (-1, before.length) :: behind.zipIdx (before.length + 1) := by
    rw [hsplit, List.zipIdx_append, List.zipIdx_cons, Nat.zero_add]
  have hlength : before.length < entry.2.length := by simp [hsplit]
  rw [array, arrayCode, List.cons_append, List.cons_append,
    run_newArray (push_pushes (ofNat_ne_minus_one hsize)) (by omega), hplaces, List.map_append,
    List.flatMap_append, List.map_cons, List.flatMap_cons, List.append_assoc, List.append_assoc,
    List.append_assoc]
  -- the elements before it are stored
  rw [run_elements (by omega) (pushes_elements hbefore (by omega)) (by omega)]
  exact run_missing_element (by omega)

theorem all_build (owner : String) (hsize : ∀ entry ∈ arrays, entry.2.length ≤ 32767)
    (hpresent : ∀ entry ∈ arrays, -1 ∉ entry.2) :
    List.Forall₂ Builds (arrays.map (array owner)) arrays := by
  rw [List.forall₂_map_left_iff, List.forall₂_same]
  exact fun entry hentry => array_builds (hpresent entry hentry) (hsize entry hentry)

/-- Without a minus one, the replay recovers all arrays. -/
theorem run_present (hdistinct : (arrays.map Prod.fst).Nodup)
    (hsize : ∀ entry ∈ arrays, entry.2.length ≤ 32767) (hpresent : ∀ entry ∈ arrays, -1 ∉ entry.2) :
    ∃ m, run (instructions owner arrays) (.start .empty) = .ok arrays.length m ∧
      m.table.scalars.entries = [] ∧ m.table.arrays.entries = arrays := by
  obtain ⟨table, hscalars, harrays, hrun⟩ := run_builds .empty 0
    (all_build owner hsize hpresent) hdistinct
  refine ⟨⟨[], none, table, arrays.length⟩, ?_, by rw [hscalars]; rfl, harrays⟩
  rw [instructions, List.flatMap_def, Machine.start, hrun, Nat.zero_add]
  rfl

/-- An initialiser is not replayed beyond the first minus one. -/
theorem run_missing (owner : String) (hdistinct : (arrays.map Prod.fst).Nodup)
    (hsize : ∀ entry ∈ arrays, entry.2.length ≤ 32767) (hmissing : ∃ entry ∈ arrays, -1 ∈ entry.2) :
    ∃ m, run (instructions owner arrays) (.start .empty)
      = .error (.malformed (.operandIsArray "iastore index")) m := by
  have hsome : (arrays.find? fun entry => decide (-1 ∈ entry.2)).isSome := by
    simpa [List.find?_isSome] using hmissing
  obtain ⟨entry, hentry⟩ := Option.isSome_iff_exists.1 hsome
  obtain ⟨hvalues, before, behind, rfl, hbefore⟩ := List.find?_eq_some_iff_append.1 hentry
  -- the arrays before the first one with a minus one are built
  have hnames : (before.map Prod.fst).Nodup := by
    rw [List.map_append] at hdistinct
    exact (List.nodup_append.1 hdistinct).1
  obtain ⟨table, -, -, hrun⟩ := run_builds .empty 0
    (all_build owner (fun e he => hsize e (List.mem_append_left _ he))
      (by simpa using hbefore)) hnames
  rw [instructions, List.flatMap_append, List.append_assoc, List.flatMap_def, Machine.start, hrun,
    List.flatMap_cons, List.append_assoc]
  exact run_missing_array (of_decide_eq_true hvalues)
    (hsize entry (List.mem_append_right _ List.mem_cons_self))

/-- The initialiser that a compiler writes for arrays with distinct names is always decoded. It is
    replayed to exactly these arrays, in their order, unless there is a minus one among their
    values, and then the replay fails. -/
theorem compiled_recovered (hdistinct : (arrays.map Prod.fst).Nodup)
    (hserves : slots.Serves pool owner arrays) (hsize : (slots.body arrays).length ≤ 65535) :
    ∃ insns, MethodBody.decode pool (slots.body arrays) = .ok insns ∧
      ((∀ entry ∈ arrays, -1 ∉ entry.2) → ∃ m, run insns (.start .empty) = .ok arrays.length m ∧
        m.table.scalars.entries = [] ∧ m.table.arrays.entries = arrays) ∧
      ((∃ entry ∈ arrays, -1 ∈ entry.2) → ∃ m, run insns (.start .empty)
        = .error (.malformed (.operandIsArray "iastore index")) m) := by
  have hlengths : ∀ entry ∈ arrays, entry.2.length ≤ 32767 := by
    intro entry hentry
    have hlength := length_le_of_mem slots hentry
    omega
  exact ⟨_, decode_body hserves hsize, run_present hdistinct hlengths,
    run_missing owner hdistinct hlengths⟩

/-- A pool with a constant and with a field of the class R. -/
def samplePool : ConstantPool :=
  ⟨#[none, some (.integer 70000), some (.utf8 "R"), some (.classRef 2), some (.utf8 "a"),
    some (.utf8 "[I"), some (.nameAndType 4 5), some (.fieldRef 3 6)]⟩

/-- The slots of that pool. -/
def sampleSlots : CompiledSlots := ⟨fun _ => 1, fun _ => 7⟩

theorem sampleSlots_serves {values : List Int32}
    (h : values.all fun v => decide (CompiledSlots.IsShort v ∨ v = 70000)) :
    sampleSlots.Serves samplePool "R" [("a", values)] := by
  refine ⟨fun entry hentry v hv hlong => ?_, fun entry hentry => ?_⟩
  · obtain rfl := List.mem_singleton.1 hentry
    obtain rfl := (of_decide_eq_true (List.all_eq_true.1 h v hv)).resolve_left hlong
    rfl
  · obtain rfl := List.mem_singleton.1 hentry
    exact ⟨3, 6, 4, 5, rfl, rfl, ⟨2, rfl, rfl⟩, rfl, rfl⟩

/-- One number for each form of a push, except minus one. -/
theorem compiled_recovered_sample :
    let arrays : List (String × List Int32) := [("a", [5, -100, 200, 70000])]
    ∃ insns m, MethodBody.decode samplePool (sampleSlots.body arrays) = .ok insns ∧
      run insns (.start .empty) = .ok 1 m ∧ m.table.arrays.entries = arrays := by
  intro arrays
  have hserves : sampleSlots.Serves samplePool "R" arrays := sampleSlots_serves rfl
  obtain ⟨insns, hdecode, hpresent, -⟩ := compiled_recovered (by decide) hserves (by decide)
  obtain ⟨m, hrun, -, harrays⟩ := hpresent (by decide)
  exact ⟨insns, m, hdecode, hrun, harrays⟩

/-- A minus one alone is enough to lose an array. -/
theorem minusOne_notRecovered :
    let arrays : List (String × List Int32) := [("a", [-1])]
    sampleSlots.Serves samplePool "R" arrays ∧ (sampleSlots.body arrays).length ≤ 65535 ∧
      ¬∃ insns n m, MethodBody.decode samplePool (sampleSlots.body arrays) = .ok insns ∧
        run insns (.start .empty) = .ok n m := by
  intro arrays
  have hserves : sampleSlots.Serves samplePool "R" arrays := sampleSlots_serves rfl
  have hsize : (sampleSlots.body arrays).length ≤ 65535 := by decide
  refine ⟨hserves, hsize, ?_⟩
  rintro ⟨insns, n, m, hdecode, hrun⟩
  rw [decode_body hserves hsize] at hdecode
  cases hdecode
  have hdistinct : (arrays.map Prod.fst).Nodup := by decide
  obtain ⟨m', hfails⟩ := run_missing "R" hdistinct (by decide) (by decide)
  rw [hfails] at hrun
  cases hrun

end CompiledArrays

end ResourceMerge

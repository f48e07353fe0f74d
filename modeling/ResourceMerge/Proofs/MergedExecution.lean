import ResourceMerge.Proofs.ArrayCode
import ResourceMerge.Proofs.MergedMembers
import ResourceMerge.Proofs.VirtualMachine

/-! The initialiser of a merged table on the reference machine. Between two arrays the operand stack
    is empty; while an array is built, its reference lies alone on the stack between two elements,
    and the array is the last one on the heap: kept values up to the next index, zeros behind. -/

namespace ResourceMerge.VirtualMachine

open MergedClass

variable {insn : Instruction} {s : State} {heap : List (List Int32)} {cells : List Int32}
  {assigned : List (FieldRef × Nat)}

/-! ### One array -/

theorem step_of_pushes {v : Int32} (h : insn.Pushes v) :
    s.step? insn = some { s with operands := .int v :: s.operands } := by
  rcases h with rfl | rfl | rfl | rfl <;> rfl

/-- An array is being built behind those of a heap. -/
def building (heap : List (List Int32)) (cells : List Int32) (assigned : List (FieldRef × Nat)) :
    State :=
  ⟨[.reference heap.length], heap ++ [cells], assigned⟩

theorem walk_element {k : Nat} (v : Int32) (hk : k < cells.length) (hsize : k ≤ 2147483647) :
    walk ((storeInstructions (v, k)).map Instruction.reread) (building heap cells assigned)
      = some (building heap (cells.set k (kept v)) assigned) := by
  have hcells : (heap ++ [cells])[heap.length]? = some cells := by simp
  have hstore : 0 ≤ sizeOperand k ∧ k < cells.length := ⟨sizeOperand_nonneg k, hk⟩
  rw [storeInstructions, List.map_cons, walk_cons rfl, List.map_cons,
    walk_cons (step_of_pushes (sizeOperand_pushes k)), List.map_cons,
    walk_cons (step_of_pushes (push_pushes v))]
  refine (walk_cons ?_).trans rfl
  simp only [Instruction.reread, State.step?, building, hcells, sizeOperand_toNat hsize]
  rw [if_pos hstore, List.set_append_right _ _ (le_refl _), Nat.sub_self]
  rfl

theorem walk_stores (heap : List (List Int32)) (assigned : List (FieldRef × Nat)) :
    ∀ (values done : List Int32), done.length + values.length ≤ 2147483647 →
    walk (((values.zipIdx done.length).flatMap storeInstructions).map Instruction.reread)
        (building heap (done.map kept ++ List.replicate values.length 0) assigned)
      = some (building heap ((done ++ values).map kept) assigned)
  | [], done, _ => by
    simp [walk]
  | v :: values, done, hsize => by
    -- the first of the zeros is the cell that the element goes to
    rw [List.length_cons] at hsize
    have hset : (done.map kept ++ List.replicate (v :: values).length 0).set done.length (kept v)
        = (done ++ [v]).map kept ++ List.replicate values.length 0 := by
      rw [List.set_append_right _ _ (by simp), List.length_map, Nat.sub_self]
      simp [List.replicate_succ]
    have hrest := walk_stores heap assigned values (done ++ [v]) (by simp; omega)
    rw [List.length_append, List.length_singleton, List.append_assoc] at hrest
    rw [List.zipIdx_cons, List.flatMap_cons, List.map_append,
      walk_append (walk_element v (by simp) (by omega)), hset]
    exact hrest

/-- The array of an entry is put on the heap and into its field. -/
theorem walk_array {owner : String} {entry : String × List Int32}
    (hsize : entry.2.length ≤ 2147483647) :
    walk ((arrayInstructions owner entry).map Instruction.reread) ⟨[], heap, assigned⟩
      = some ⟨[], heap ++ [entry.2.map kept],
          assigned ++ [(.intArray owner entry.1, heap.length)]⟩ := by
  have hstores := walk_stores heap assigned entry.2 [] (by simpa using hsize)
  rw [List.length_nil, List.map_nil, List.nil_append, List.nil_append] at hstores
  have hnew : State.step? ⟨[.int (sizeOperand entry.2.length)], heap, assigned⟩
      (Instruction.reread .newIntArray)
        = some (building heap (List.replicate entry.2.length 0) assigned) := by
    simp only [Instruction.reread, State.step?]
    rw [if_pos (sizeOperand_nonneg _), sizeOperand_toNat hsize]
    rfl
  rw [arrayInstructions, List.map_cons, walk_cons (step_of_pushes (sizeOperand_pushes _)),
    List.map_cons, List.map_append, walk_cons hnew, walk_append hstores,
    List.map_cons, reread_storeField]
  exact walk_cons rfl

/-! ### All arrays -/

/-- What the arrays of a table leave: each of them on the heap, and in its field. -/
theorem walk_arrays (owner : String) : ∀ (entries : List (String × List Int32))
    (heap : List (List Int32)) (assigned : List (FieldRef × Nat)),
    (∀ entry ∈ entries, entry.2.length ≤ 2147483647) →
    walk ((entries.flatMap (arrayInstructions owner)).map Instruction.reread) ⟨[], heap, assigned⟩
      = some ⟨[], heap ++ entries.map fun entry => entry.2.map kept,
          assigned ++ (entries.zipIdx heap.length).map fun place =>
            (.intArray owner place.1.1, place.2)⟩
  | [], heap, assigned, _ => by simp [walk]
  | entry :: entries, heap, assigned, hsize => by
    have hrest := walk_arrays owner entries (heap ++ [entry.2.map kept])
      (assigned ++ [(.intArray owner entry.1, heap.length)])
      (fun e he => hsize e (List.mem_cons_of_mem _ he))
    rw [List.flatMap_cons, List.map_append,
      walk_append (walk_array (hsize entry List.mem_cons_self)), hrest]
    simp

/-! ### What the fields hold -/

/-- In a log with distinct keys, what is entered under a key is what is found there last. -/
theorem lookup_reverse_of_mem {α β : Type} [BEq α] [LawfulBEq α] {log : List (α × β)} {a : α}
    {b : β} (hdistinct : (log.map Prod.fst).Nodup) (h : (a, b) ∈ log) :
    log.reverse.lookup a = some b := by
  obtain ⟨before, behind, rfl⟩ := List.append_of_mem h
  rw [List.lookup_eq_some_iff]
  refine ⟨behind.reverse, before.reverse, by simp, fun entry hentry => ?_⟩
  rw [List.map_append, List.map_cons] at hdistinct
  have hnodup := (List.nodup_cons.1 (List.nodup_append.1 hdistinct).2.1).1
  rw [bne_iff_ne]
  intro heq
  exact hnodup (List.mem_map.2 ⟨entry, List.mem_reverse.1 hentry, heq.symm⟩)

/-- The fields that are assigned, in their order. -/
theorem assigned_fields (owner : String) (entries : List (String × List Int32)) :
    ((entries.zipIdx.map fun place => (FieldRef.intArray owner place.1.1, place.2)).map Prod.fst)
      = entries.map fun entry => FieldRef.intArray owner entry.1 := by
  have hentries := congrArg (List.map fun entry => FieldRef.intArray owner entry.1)
    (List.zipIdx_map_fst 0 entries)
  rw [List.map_map] at hentries ⊢
  exact hentries

theorem nodup_assigned (owner : String) {entries : List (String × List Int32)}
    (h : (entries.map Prod.fst).Nodup) :
    (entries.map fun entry => FieldRef.intArray owner entry.1).Nodup := by
  have hinjective : Function.Injective fun name => FieldRef.intArray owner name := by
    intro a b hab
    simpa [FieldRef.intArray] using hab
  have hnames := h.map hinjective
  rwa [List.map_map] at hnames

/-- The state in which the initialiser returns. -/
def built (owner : String) (entries : List (String × List Int32)) : State :=
  ⟨[], entries.map fun entry => entry.2.map kept,
    entries.zipIdx.map fun place => (.intArray owner place.1.1, place.2)⟩

/-- At the end, the field of an array holds what is kept of its values. -/
theorem array?_built {owner : String} {entries : List (String × List Int32)}
    (hdistinct : (entries.map Prod.fst).Nodup) {entry : String × List Int32}
    (h : entry ∈ entries) :
    (built owner entries).array? (.intArray owner entry.1) = some (entry.2.map kept) := by
  obtain ⟨i, hi, rfl⟩ := List.mem_iff_getElem.1 h
  have hplace : (entries[i], i) ∈ entries.zipIdx := by
    rw [List.mem_zipIdx_iff_getElem?]
    exact List.getElem?_eq_getElem hi
  have hlog := List.mem_map_of_mem
    (f := fun place : (String × List Int32) × Nat => (FieldRef.intArray owner place.1.1, place.2))
    hplace
  have hfound := lookup_reverse_of_mem
    (by rw [assigned_fields]; exact nodup_assigned owner hdistinct) hlog
  rw [State.array?, built, hfound]
  simp [hi]

/-! ### Which fields are stored into -/

theorem push_ne_storeField (v : Int32) (field : FieldRef) : Instruction.push v ≠ .storeField field := by
  unfold Instruction.push
  split
  · simp
  · split
    · simp
    · split <;> simp

/-- The initialiser stores into the fields of the arrays and into no other. -/
theorem storeField_mem {table : SymbolTable} {owner : String} {field : FieldRef}
    (h : .storeField field ∈ initializer table owner) :
    ∃ entry ∈ table.arrays.entries, field = .intArray owner entry.1 := by
  rcases List.mem_append.1 h with h | h
  · obtain ⟨entry, hentry, hmem⟩ := List.mem_flatMap.1 h
    refine ⟨entry, hentry, ?_⟩
    simpa [arrayInstructions, storeInstructions, (push_ne_storeField _ _).symm] using hmem
  · simp at h

theorem reread_eq_storeField {insn : Instruction} {field : FieldRef}
    (h : insn.reread = .storeField field) : insn = .storeField field := by
  cases insn with
  | storeField other =>
    rw [Instruction.reread] at h
    split at h
    · exact h
    · cases h
  | _ => cases h

/-- The array fields of the class, in the order in which they are declared. -/
theorem declared_arrays (table : SymbolTable) (owner : String) :
    (memberFields table owner).filter (fun field => field.descriptor = "[I")
      = table.arrays.entries.map arrayField := by
  have hscalars : ((ownScalars table owner).map scalarField).filter
      (fun field => field.descriptor = "[I") = [] := by
    rw [List.filter_eq_nil_iff]
    intro field hfield
    obtain ⟨entry, -, rfl⟩ := List.mem_map.1 hfield
    simp [scalarField, intDescriptor]
  have harrays : (table.arrays.entries.map arrayField).filter
      (fun field => field.descriptor = "[I") = table.arrays.entries.map arrayField := by
    rw [List.filter_eq_self]
    intro field hfield
    obtain ⟨entry, -, rfl⟩ := List.mem_map.1 hfield
    simp [arrayField, intArrayDescriptor]
  rw [memberFields, List.filter_append, hscalars, harrays, List.append_nil]

/-- The initialiser of a table that can be built does on the machine what it is meant to do: it
    never gets stuck, it goes exactly as deep as is recorded, it returns at its end and nowhere
    else, with an empty stack, it stores into the declared array fields of its class only, into each
    of them once and in the order of their declaration, and it leaves in each of them the array
    of the table with what is kept of its values. -/
theorem initializer_executes {table : SymbolTable} {target : Target} {bytes : List UInt8}
    (h : build table target = .ok bytes) :
    ∃ file method body insns visited final,
      ClassFile.ofBytes bytes = .ok file ∧ file.initializer? = some method ∧
      method.body = some body ∧ file.instructions method = .ok insns ∧
      execute insns .start = some visited ∧ visited.getLast? = some final ∧
      (∀ s ∈ visited, s.operands.length ≤ body.maxStack.toNat) ∧
      (∃ s ∈ visited, s.operands.length = body.maxStack.toNat) ∧
      (∃ before, insns = before ++ [.finish] ∧ .finish ∉ before ∧ ∀ op, .other op ∉ before) ∧
      final.operands = [] ∧
      (∀ field, .storeField field ∈ insns → field.owner = target.className ∧
        ∃ declared ∈ file.fields, declared.name = field.name ∧ declared.descriptor = "[I" ∧
          field.descriptor = "[I") ∧
      final.assigned.map Prod.fst = (file.fields.filter fun field => field.descriptor = "[I").map
        (fun field => ⟨target.className, field.name, "[I"⟩) ∧
      (final.assigned.map Prod.fst).Nodup ∧
      ∀ entry ∈ table.arrays.entries, final.array? ⟨target.className, entry.1, "[I"⟩
        = some (entry.2.map fun v => if v < -128 then v.toInt8.toInt32 else v) := by
  obtain ⟨file, maxStack, code, hfile, hwritten⟩ := build_written h
  let body := table.arrays.entries.flatMap (arrayInstructions target.className)
  have hsizes : ∀ entry ∈ table.arrays.entries, entry.2.length ≤ 2147483647 :=
    fun entry hentry => (hwritten.values_fit hentry).trans (by decide)
  have hwalk : walk (body.map Instruction.reread) .start
      = some (built target.className table.arrays.entries) := by
    have hall := walk_arrays target.className table.arrays.entries [] [] hsizes
    rwa [List.nil_append, List.nil_append] at hall
  have hreturn : .finish ∉ body.map Instruction.reread := notMem_of_walk hwalk fun _ => rfl
  have hfinish : .finish ∉ body := fun hmem => hreturn (List.mem_map_of_mem hmem)
  obtain ⟨visited, hvisited⟩ := execute_of_walk hwalk
  obtain ⟨hbound, hreached⟩ := maxStack_of_execute hvisited hfinish hwritten.depth
  have hinsns : (initializer table target.className).map Instruction.reread
      = body.map Instruction.reread ++ [.finish] := List.map_append
  have hassigned : ((built target.className table.arrays.entries).assigned.map Prod.fst)
      = table.arrays.entries.map fun entry => FieldRef.intArray target.className entry.1 :=
    assigned_fields target.className table.arrays.entries
  refine ⟨file, initializerMethod maxStack code, ⟨maxStack, 0, code⟩, _, _, _, hfile,
    hwritten.initializer_eq, rfl, hwritten.instructions_eq.trans (congrArg _ hinsns), hvisited,
    List.getLast?_concat, hbound, hreached, ⟨_, rfl, hreturn,
      fun _ => notMem_of_walk hwalk fun _ => rfl⟩, rfl, fun field hfield => ?_, ?_, ?_, fun entry hentry => ?_⟩
  · rw [← hinsns] at hfield
    obtain ⟨insn, hinsn, hreread⟩ := List.mem_map.1 hfield
    rw [reread_eq_storeField hreread] at hinsn
    obtain ⟨entry, hentry, rfl⟩ := storeField_mem hinsn
    refine ⟨rfl, arrayField entry, ?_, rfl, rfl, rfl⟩
    rw [hwritten.fields]
    exact List.mem_append_left _ (List.mem_map_of_mem hentry)
  · rw [hassigned, hwritten.fields, declared_arrays, List.map_map]
    rfl
  · rw [hassigned]
    exact nodup_assigned target.className table.arrays.distinct
  · exact array?_built table.arrays.distinct hentry

/-- The array of the sample with a value that a byte cannot hold. -/
theorem initializer_executes_sample :
    ∃ bytes file insns visited final, build sampleTable defaultTarget = .ok bytes ∧
      ClassFile.ofBytes bytes = .ok file ∧ execute insns .start = some visited ∧
      visited.getLast? = some final ∧
      final.array? ⟨"R$styleable", "a", "[I"⟩ = some [7, 56, 70000] := by
  have hbuild : (build sampleTable defaultTarget).toOption.any (fun _ => true) = true := by
    decide +kernel
  obtain ⟨bytes, hok, -⟩ := Except.exists_of_any hbuild
  obtain ⟨file, method, body, insns, visited, final, hfile, -, -, -, hrun, hlast, -, -, -, -, -, -,
    -, harrays⟩ := initializer_executes hok
  refine ⟨bytes, file, insns, visited, final, hok, hfile, hrun, hlast, ?_⟩
  exact harrays ("a", [7, -200, 70000]) (by decide)

end ResourceMerge.VirtualMachine

import ResourceMerge.Proofs.MergedMembers
import ResourceMerge.Proofs.Replay

/-! A table, written as its class and harvested from it again. The scalars come back from the
    constant fields under the names they had, the arrays from the initialiser in the order they had.
    What does not come back are the scalars of other classes, which were never written, and of an
    array element below -128 all but its low eight bits. -/

namespace ResourceMerge

open Harvest MergedClass

namespace Harvest

/-- The constants that a class contributes, by their names in the merged table. -/
def constants (simple : String) (fields : List Field) : List (String × Int32) :=
  fields.filterMap fun field =>
    field.intConstant.map fun value => (qualified simple field.name, value)

/-- Constants of distinct names, none of which the table holds, end up behind those it holds. -/
theorem insertConstants_fresh {simple : String} : ∀ (fields : List Field) (table : SymbolTable),
    (table.scalars.entries.map Prod.fst ++ (constants simple fields).map Prod.fst).Nodup →
    ∃ table', insertConstants simple fields table = .ok () table' ∧
      table'.arrays = table.arrays ∧
      table'.scalars.entries = table.scalars.entries ++ constants simple fields
  | [], table, _ => ⟨table, rfl, rfl, by simp [constants]⟩
  | field :: fields, table, hdistinct => by
    cases hconstant : field.intConstant with
    | none =>
      have hskip : constants simple (field :: fields) = constants simple fields := by
        simp [constants, hconstant]
      rw [hskip] at hdistinct ⊢
      obtain ⟨table', hinsert, harrays, hscalars⟩ := insertConstants_fresh fields table hdistinct
      refine ⟨table', ?_, harrays, hscalars⟩
      rw [insertConstants, List.forM, hconstant]
      exact bind_eq_ok.2 ⟨(), table, rfl, hinsert⟩
    | some value =>
      have hcons : constants simple (field :: fields)
          = (qualified simple field.name, value) :: constants simple fields := by
        simp [constants, hconstant]
      rw [hcons] at hdistinct ⊢
      have hfree := Registry.find?_next hdistinct
      let added : SymbolTable :=
        { table with scalars := table.scalars.add (qualified simple field.name) value hfree }
      have hadded : added.scalars.entries
          = table.scalars.entries ++ [(qualified simple field.name, value)] := rfl
      obtain ⟨table', hinsert, harrays, hscalars⟩ := insertConstants_fresh fields added (by
        rw [hadded]
        simpa using hdistinct)
      refine ⟨table', ?_, harrays, by simp [hscalars, hadded]⟩
      rw [insertConstants, List.forM, hconstant]
      exact bind_eq_ok.2 ⟨(), added, SymbolTable.insertScalar_fresh hfree value, hinsert⟩

end Harvest

namespace MergedClass

/-- Does a name start with the simple name of the class and a dot? -/
def isOwn (owner name : String) : Bool :=
  (simpleName owner ++ ".").toList.isPrefixOf name.toList

theorem isOwn_iff {owner name : String} :
    isOwn owner name = true ↔ ∃ field, ownField? owner name = some field := by
  rw [isOwn, List.isPrefixOf_iff_prefix]
  simp only [ownField?, rest?, Option.map_eq_some_iff, List.isPrefixOf?_eq_some_iff_append_eq]
  constructor
  · rintro ⟨rest, hrest⟩
    exact ⟨_, rest, hrest, rfl⟩
  · rintro ⟨-, rest, hrest, -⟩
    exact ⟨rest, hrest⟩

theorem ownField?_eq_none {owner name : String} :
    ownField? owner name = none ↔ isOwn owner name = false := by
  rw [← Bool.not_eq_true, isOwn_iff, not_exists]
  exact Option.eq_none_iff_forall_ne_some

/-- The scalars of the class, under the names they have in the table, are the entries of the table
    that belong to the class. -/
theorem qualified_ownScalars (table : SymbolTable) (owner : String) :
    (ownScalars table owner).map (fun entry => (qualified (simpleName owner) entry.1, entry.2))
      = table.scalars.entries.filter fun entry => isOwn owner entry.1 := by
  rw [ownScalars, List.map_filterMap]
  induction table.scalars.entries with
  | nil => rfl
  | cons entry entries ih =>
    obtain ⟨name, value⟩ := entry
    rw [List.filterMap_cons, List.filter_cons, ih]
    cases hfield : ownField? owner name with
    | none =>
      have hforeign := ownField?_eq_none.1 hfield
      simp [hforeign]
    | some field =>
      have hown : isOwn owner name = true := isOwn_iff.2 ⟨field, hfield⟩
      have hname := ownField?_eq_some.1 hfield
      simp [hown, ← hname]

theorem constants_memberFields (table : SymbolTable) (owner : String) :
    constants (simpleName owner) (memberFields table owner)
      = table.scalars.entries.filter fun entry => isOwn owner entry.1 := by
  have harrays : constants (simpleName owner) (table.arrays.entries.map arrayField) = [] := by
    simp [constants, arrayField]
  have hscalars : constants (simpleName owner) ((ownScalars table owner).map scalarField)
      = (ownScalars table owner).map
          (fun entry => (qualified (simpleName owner) entry.1, entry.2)) := by
    simp [constants, scalarField, List.filterMap_map, Function.comp_def]
  rw [← qualified_ownScalars, ← hscalars, memberFields]
  simp only [constants, List.filterMap_append] at harrays ⊢
  rw [harrays, List.nil_append]

/-- What the class of a table contributes. -/
theorem contribute_written {table : SymbolTable} {target : Target} {file : ClassFile}
    {maxStack : UInt16} {code : List UInt8} (h : Written table target file maxStack code) :
    ∃ found, contribute file .empty = .ok () found ∧
      found.arrays.entries = table.arrays.entries.map Initializer.keptEntry ∧
      found.scalars.entries
        = table.scalars.entries.filter fun entry => isOwn target.className entry.1 := by
  have hdistinct : ((SymbolTable.empty.scalars.entries).map Prod.fst
      ++ (constants (simpleName target.className) file.fields).map Prod.fst).Nodup := by
    rw [h.fields, constants_memberFields]
    exact table.scalars.distinct.sublist (List.filter_sublist.map _)
  obtain ⟨first, hinsert, harrays, hscalars⟩ := insertConstants_fresh file.fields .empty hdistinct
  have hlengths : ∀ entry ∈ table.arrays.entries, entry.2.length ≤ 2147483647 :=
    fun entry hentry => (h.values_fit hentry).trans (by decide)
  have hnone : (first.arrays.entries.map Prod.fst ++ table.arrays.entries.map Prod.fst).Nodup := by
    rw [harrays]
    exact table.arrays.distinct
  obtain ⟨found, hscalars', harrays', hrun⟩ := Initializer.run_arrays target.className
    table.arrays.entries first 0 hlengths hnone
  have hinitializer : Initializer.run
      ((initializer table target.className).map Instruction.reread) (.start first)
        = .ok table.arrays.entries.length ⟨[], none, found, table.arrays.entries.length⟩ := by
    rw [initializer, List.map_append, Initializer.Machine.start, hrun, Nat.zero_add]
    rfl
  have hreplay : replay ((initializer table target.className).map Instruction.reread) first
      = .ok table.arrays.entries.length found := by
    rw [replay, hinitializer]
  refine ⟨found, bind_eq_ok.2 ⟨(), first, h.thisClass ▸ hinsert, ?_⟩, ?_, ?_⟩
  · rw [h.initializer_eq]
    simp only [h.instructions_eq]
    exact bind_eq_ok.2 ⟨_, _, hreplay, rfl⟩
  · rw [harrays', harrays]
    rfl
  · rw [hscalars', hscalars, h.fields, constants_memberFields]
    rfl

/-- A class that is written is harvested. -/
theorem ofClass_written {table : SymbolTable} {target : Target} {bytes : List UInt8}
    (h : build table target = .ok bytes) {filter : NameFilter}
    (hfilter : filter.accepts (simpleName target.className) = true) :
    ∃ found, ofClass filter bytes = .ok found ∧
      found.arrays.entries = table.arrays.entries.map Initializer.keptEntry ∧
      found.scalars.entries
        = table.scalars.entries.filter fun entry => isOwn target.className entry.1 := by
  obtain ⟨file, maxStack, code, hfile, hwritten⟩ := build_written h
  obtain ⟨found, hcontribute, harrays, hscalars⟩ := contribute_written hwritten
  refine ⟨found, Except.bind_eq_ok.2 ⟨file, hfile, ?_⟩, harrays, hscalars⟩
  rw [hwritten.thisClass, if_pos hfilter, outcome, hcontribute]

/-- A table that can be built at all comes back from its class: all its arrays, with what is kept of
    their values, and exactly its scalars that belong to the class. Nothing is truncated on the way:
    the lengths and the indices are the operands that are pushed, all members are counted, the
    slots of the pool fit their sixteen bits, and the body is read as it was meant. -/
theorem ofClass_build {table : SymbolTable} {target : Target} {bytes : List UInt8}
    (h : build table target = .ok bytes) :
    (∀ filter : NameFilter, filter.accepts (simpleName target.className) = true →
      ∃ found, ofClass filter bytes = .ok found ∧
        found.arrays.entries = table.arrays.entries.map (fun entry =>
          (entry.1, entry.2.map fun v => if v < -128 then v.toInt8.toInt32 else v)) ∧
        found.scalars.entries = table.scalars.entries.filter fun entry =>
          (simpleName target.className ++ ".").toList.isPrefixOf entry.1.toList) ∧
    (∀ entry ∈ table.arrays.entries, ∀ n ≤ entry.2.length, n ≤ 16383 ∧
      (sizeOperand n).toInt = n ∧
      (Instruction.push (sizeOperand n)).reread.Pushes (sizeOperand n)) ∧
    ∃ file method, ClassFile.ofBytes bytes = .ok file ∧
      file.fields.length = table.arrays.size + (table.scalars.entries.countP fun entry =>
        (simpleName target.className ++ ".").toList.isPrefixOf entry.1.toList) ∧
      file.fields.length ≤ 65535 ∧ file.methods = [method] ∧ file.pool.size ≤ 65535 ∧
      file.instructions method
        = .ok ((initializer table target.className).map Instruction.reread) := by
  obtain ⟨file, maxStack, code, hfile, hwritten⟩ := build_written h
  refine ⟨fun filter hfilter => ofClass_written h hfilter, fun entry hentry n hn => ?_,
    file, initializerMethod maxStack code, hfile, ?_, ?_, hwritten.methods, ?_,
    hwritten.instructions_eq⟩
  · have hlength := hn.trans (hwritten.values_fit hentry)
    exact ⟨hlength, sizeOperand_toInt (hlength.trans (by decide)), sizeOperand_pushes n⟩
  · have hcount := congrArg List.length (qualified_ownScalars table target.className)
    rw [List.length_map, ← List.countP_eq_length_filter] at hcount
    rw [hwritten.fields, memberFields, List.length_append, List.length_map, List.length_map, hcount]
    rfl
  · rw [hwritten.fields]
    exact hwritten.fieldsFit.trans (by decide)
  · exact hwritten.poolFits.trans (by decide)

theorem ofClass_build_sample :
    ∃ bytes filter found, build sampleTable defaultTarget = .ok bytes ∧
      NameFilter.ofGlob NameFilter.defaultGlob = .ok filter ∧ ofClass filter bytes = .ok found ∧
      found.arrays.entries = [("a", [7, 56, 70000]), ("x", [])] ∧
      found.scalars.entries = [("R$styleable.x", 7)] := by
  have hbuild : (build sampleTable defaultTarget).toOption.any (fun _ => true) = true := by
    decide +kernel
  have haccepts : (NameFilter.ofGlob NameFilter.defaultGlob).toOption.any (fun filter =>
      filter.accepts (simpleName defaultTarget.className)) = true := by
    decide +kernel
  obtain ⟨bytes, hbytes, -⟩ := Except.exists_of_any hbuild
  obtain ⟨filter, hfilter, haccepts⟩ := Except.exists_of_any haccepts
  obtain ⟨found, hfound, harrays, hscalars⟩ := (ofClass_build hbytes).1 filter haccepts
  refine ⟨bytes, filter, found, hbytes, hfilter, hfound, ?_, ?_⟩
  · rw [harrays]
    decide +kernel
  · rw [hscalars]
    decide +kernel

end MergedClass

end ResourceMerge

import ResourceMerge.Proofs.ArrayReplay

/-! Replaying the initialiser of a merged table. It pushes lengths and indices as they are, and of
    the values what is kept of them. Every name is new to the table that the arrays go into. -/

namespace ResourceMerge.Initializer

open MergedClass

/-- The entries of a table as they come out of a replay. -/
def keptEntry (entry : String × List Int32) : String × List Int32 := (entry.1, entry.2.map kept)

/-- The instructions that push an element, as they are read back. -/
def elementPushes (element : Int32 × Nat) : Instruction × Instruction :=
  ((Instruction.push (sizeOperand element.2)).reread, (Instruction.push element.1).reread)

theorem pushesSize {n : Nat} (h : n ≤ 2147483647) :
    (Instruction.push (sizeOperand n)).reread.Pushes (.ofNat n) := by
  have hpushes := sizeOperand_pushes n
  rwa [sizeOperand, if_pos h] at hpushes ⊢

/-- Lengths, indices and values are pushed by the array of an entry. -/
theorem arrayInstructions_builds (owner : String) {entry : String × List Int32}
    (hlength : entry.2.length ≤ 2147483647) :
    Builds ((arrayInstructions owner entry).map Instruction.reread) (keptEntry entry) := by
  have helements : List.Forall₂ PushesElement (entry.2.zipIdx.map elementPushes)
      (entry.2.map kept).zipIdx := by
    rw [List.zipIdx_map, List.forall₂_map_left_iff, List.forall₂_map_right_iff, List.forall₂_same]
    intro element helement
    have hindex := List.snd_lt_of_mem_zipIdx helement
    exact ⟨pushesSize (by omega), push_pushes element.1⟩
  have hcode : (arrayInstructions owner entry).map Instruction.reread
      = arrayCode (Instruction.push (sizeOperand entry.2.length)).reread
          (entry.2.zipIdx.map elementPushes) (.intArray owner entry.1) := by
    rw [arrayInstructions, arrayCode, List.map_cons, List.map_cons, List.map_append, List.map_flatMap,
      List.flatMap_map, List.map_singleton, reread_storeField]
    rfl
  rw [hcode]
  exact arrayCode_builds (by simpa using hlength) (by simpa using pushesSize hlength) helements

/-- Arrays of distinct names, none of which the table holds, end up behind those it holds. -/
theorem run_arrays (owner : String) (entries : List (String × List Int32)) (table : SymbolTable)
    (committed : Nat) (hlength : ∀ entry ∈ entries, entry.2.length ≤ 2147483647)
    (hdistinct : (table.arrays.entries.map Prod.fst ++ entries.map Prod.fst).Nodup) :
    ∃ table', table'.scalars = table.scalars ∧
      table'.arrays.entries = table.arrays.entries ++ entries.map keptEntry ∧
      ∀ rest, run ((entries.flatMap (arrayInstructions owner)).map Instruction.reread ++ rest)
          ⟨[], none, table, committed⟩
        = run rest ⟨[], none, table', committed + entries.length⟩ := by
  have hbuilds : List.Forall₂ Builds
      (entries.map fun entry => (arrayInstructions owner entry).map Instruction.reread)
      (entries.map keptEntry) := by
    rw [List.forall₂_map_left_iff, List.forall₂_map_right_iff, List.forall₂_same]
    exact fun entry hentry => arrayInstructions_builds owner (hlength entry hentry)
  obtain ⟨table', hscalars, harrays, hrun⟩ := run_builds table committed hbuilds (by
    simpa [keptEntry, Function.comp_def] using hdistinct)
  refine ⟨table', hscalars, harrays, fun rest => ?_⟩
  rw [List.map_flatMap, List.flatMap_def, hrun, List.length_map]

end ResourceMerge.Initializer

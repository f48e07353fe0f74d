import ResourceMerge.Proofs.PoolBodies

/-! The instructions of the initialiser of a table, whatever the table holds. Each of them has a form
    in a class file, because the push chosen for a value has one. And they need no more than four
    operands at a time: the array under construction, its copy, an index and a value. -/

namespace ResourceMerge

namespace Instruction

/-- The push chosen for a value has a form. -/
theorem push_hasForm (v : Int32) : (push v).HasForm := by
  unfold push
  split
  · rename_i hsmall
    exact hsmall
  split
  · trivial
  split <;> trivial

theorem stackDelta?_push (v : Int32) : (push v).stackDelta? = some 1 := by
  unfold push
  split
  · rfl
  split
  · rfl
  split <;> rfl

/-- A push names no more than the constant that it pushes. -/
theorem item?_push {v : Int32} {item : PoolDraft.Item} (h : item ∈ (push v).item?) :
    item = .integer v := by
  unfold push at h
  split at h
  · cases h
  split at h
  · cases h
  split at h
  · cases h
  · cases h
    rfl

/-! ### Depth -/

/-- From the depth on, the code finds its operands and goes no deeper than four. -/
def Shallow (code : List Instruction) (depth : Int) : Prop :=
  ∀ position greatest, greatest ≤ 4 →
    ∃ top, deepest code position depth greatest = .ok top ∧ greatest ≤ top ∧ top ≤ 4

namespace Shallow

variable {insn : Instruction} {rest : List Instruction} {depth delta : Int}

theorem nil (depth : Int) : Shallow [] depth := fun _ greatest h => ⟨greatest, rfl, le_refl _, h⟩

theorem cons (hdelta : insn.stackDelta? = some delta) (hlow : 0 ≤ depth + delta)
    (hhigh : depth + delta ≤ 4) (hrest : Shallow rest (depth + delta)) :
    Shallow (insn :: rest) depth := by
  intro position greatest hgreatest
  obtain ⟨top, htop, hbelow, habove⟩ :=
    hrest (position + 1) (max greatest (depth + delta)) (max_le hgreatest hhigh)
  refine ⟨top, ?_, (le_max_left _ _).trans hbelow, habove⟩
  simp only [deepest, hdelta]
  rw [if_neg fun h => absurd hlow (not_le.2 h.2)]
  exact htop

theorem push (v : Int32) (hlow : 0 ≤ depth + 1) (hhigh : depth + 1 ≤ 4)
    (hrest : Shallow rest (depth + 1)) : Shallow (Instruction.push v :: rest) depth :=
  cons (stackDelta?_push v) hlow hhigh hrest

end Shallow

end Instruction

namespace MergedClass

open Instruction (Shallow)

variable {rest : List Instruction}

theorem stores_shallow (h : Shallow rest 1) : ∀ values : List (Int32 × Nat),
    Shallow (values.flatMap storeInstructions ++ rest) 1
  | [] => h
  | (v, i) :: values => by
    have hrest := stores_shallow h values
    have hstored : Shallow (.arrayStore :: (values.flatMap storeInstructions ++ rest)) 4 :=
      .cons rfl (by decide) (by decide) hrest
    have hvalue : Shallow (.push v :: .arrayStore :: _) 3 :=
      .push v (by decide) (by decide) hstored
    have hindex : Shallow (.push (sizeOperand i) :: .push v :: .arrayStore :: _) 2 :=
      .push (sizeOperand i) (by decide) (by decide) hvalue
    exact .cons rfl (by decide) (by decide) hindex

theorem array_shallow (h : Shallow rest 0) (owner : String) (entry : String × List Int32) :
    Shallow (arrayInstructions owner entry ++ rest) 0 := by
  have hfield : Shallow (.storeField (.intArray owner entry.1) :: rest) 1 :=
    .cons rfl (by decide) (by decide) h
  have hcreated : Shallow (.newIntArray :: (entry.2.zipIdx.flatMap storeInstructions
      ++ .storeField (.intArray owner entry.1) :: rest)) 1 :=
    .cons rfl (by decide) (by decide) (stores_shallow hfield _)
  have hall : Shallow (.push (sizeOperand entry.2.length) :: .newIntArray :: _) 0 :=
    .push (sizeOperand entry.2.length) (by decide) (by decide) hcreated
  simpa [arrayInstructions] using hall

theorem arrays_shallow (h : Shallow rest 0) (owner : String) :
    ∀ entries : List (String × List Int32),
      Shallow (entries.flatMap (arrayInstructions owner) ++ rest) 0
  | [] => h
  | entry :: entries => by
    rw [List.flatMap_cons, List.append_assoc]
    exact array_shallow (arrays_shallow h owner entries) owner entry

/-- The initialiser of any table has a depth, and it is at most four. -/
theorem maxStack_initializer (table : SymbolTable) (owner : String) :
    ∃ depth, Instruction.maxStack (initializer table owner) = .ok depth ∧ depth ≤ 4 := by
  have hfinish : Shallow [.finish] 0 := .cons rfl (by decide) (by decide) (.nil _)
  obtain ⟨top, htop, hlow, hhigh⟩ :=
    arrays_shallow hfinish owner table.arrays.entries 0 0 (by decide)
  have hdeepest : Instruction.deepest (initializer table owner) 0 0 0 = .ok top := htop
  refine ⟨UInt16.ofNat top.toNat, ?_, ?_⟩
  · rw [Instruction.maxStack, hdeepest]
    exact if_pos (by omega)
  · rw [UInt16.le_iff_toNat_le, UInt16.toNat_ofNat']
    simp only [UInt16.reduceToNat]
    omega

/-! ### Instructions -/

/-- What the initialiser is made of. -/
theorem initializer_cases {table : SymbolTable} {owner : String} {insn : Instruction}
    (h : insn ∈ initializer table owner) :
    (∃ v, insn = .push v) ∨ insn = .newIntArray ∨ insn = .dup ∨ insn = .arrayStore ∨
      insn = .finish ∨
      ∃ entry ∈ table.arrays.entries, insn = .storeField (.intArray owner entry.1) := by
  rcases List.mem_append.1 h with h | h
  · obtain ⟨entry, hentry, hinsn⟩ := List.mem_flatMap.1 h
    simp only [arrayInstructions, List.mem_cons, List.mem_append, List.mem_flatMap,
      storeInstructions, List.not_mem_nil, or_false] at hinsn
    rcases hinsn with rfl | rfl | ⟨_, _, rfl | rfl | rfl | rfl⟩ | rfl
    · exact .inl ⟨_, rfl⟩
    · exact .inr (.inl rfl)
    · exact .inr (.inr (.inl rfl))
    · exact .inl ⟨_, rfl⟩
    · exact .inl ⟨_, rfl⟩
    · exact .inr (.inr (.inr (.inl rfl)))
    · exact .inr (.inr (.inr (.inr (.inr ⟨entry, hentry, rfl⟩))))
  · exact .inr (.inr (.inr (.inr (.inl (List.mem_singleton.1 h)))))

theorem initializer_hasForm {table : SymbolTable} {owner : String} {insn : Instruction}
    (h : insn ∈ initializer table owner) : insn.HasForm := by
  rcases initializer_cases h with ⟨v, rfl⟩ | rfl | rfl | rfl | rfl | ⟨entry, -, rfl⟩
  · exact Instruction.push_hasForm v
  all_goals trivial

/-- The initialiser names constants, and the fields of arrays. -/
theorem initializer_item {table : SymbolTable} {owner : String} {item : PoolDraft.Item}
    (h : item ∈ (initializer table owner).filterMap Instruction.item?) :
    (∃ v, item = .integer v) ∨
      ∃ entry ∈ table.arrays.entries, item = .fieldRef (.intArray owner entry.1) := by
  obtain ⟨insn, hinsn, hitem⟩ := List.mem_filterMap.1 h
  rcases initializer_cases hinsn with ⟨v, rfl⟩ | rfl | rfl | rfl | rfl | ⟨entry, hentry, rfl⟩
  · exact .inl ⟨v, Instruction.item?_push hitem⟩
  · cases hitem
  · cases hitem
  · cases hitem
  · cases hitem
  · cases hitem
    exact .inr ⟨entry, hentry, rfl⟩

end MergedClass

end ResourceMerge

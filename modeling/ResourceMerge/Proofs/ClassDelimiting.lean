import ResourceMerge.Proofs.CallHistory
import ResourceMerge.Proofs.Delimiting

/-! Class files that are cut off. The reader of class files is made of delimited readers: it asks
    for bytes by their number only, and what it looks into apart, the bytes of an attribute, it has
    taken as a whole before. So a class file takes up a beginning of a byte string that is as long
    as its own lengths say, and with any of these bytes missing the reader runs out. A class that is
    written takes up all its bytes. -/

namespace ResourceMerge

open Binary

/-! ### The constant pool -/

namespace ConstantPool

theorem readTagged_delimited (slot : Nat) (tag : UInt8) : Delimited (readTagged slot tag) := by
  have hpair : ∀ entry : UInt16 → UInt16 → Constant, Delimited (do
      let first ← Reader.u16
      let second ← Reader.u16
      return entry first second) :=
    fun entry => .bind .u16 fun first => .map .u16 (entry first)
  have hskipped : ∀ n, Delimited (do
      Reader.skip n
      return Constant.uninterpreted tag) :=
    fun n => .map (.skip n) fun _ => Constant.uninterpreted tag
  unfold readTagged
  split
  · exact .bind .u16 fun size => .map (.take size.toNat) _
  · exact .map .i32 _
  · exact .map .u32 _
  · exact .map .u64 _
  · exact .map .u64 _
  · exact .map .u16 _
  · exact .map .u16 _
  · exact hpair _
  · exact hpair _
  · exact hpair _
  · exact hpair _
  · exact hskipped 3
  · exact hskipped 2
  · exact hskipped 2
  · exact hskipped 2
  · exact hskipped 4
  · exact hskipped 4
  · exact .fail _

theorem readConstant_delimited (slot : Nat) : Delimited (readConstant slot) :=
  .bind .u8 fun tag => readTagged_delimited slot tag

theorem readSlots_delimited : ∀ (count : Nat) (slots : Array (Option Constant)),
    Delimited (readSlots slots count)
  | 0, slots => .pure slots
  | 1, _ => .bind (readConstant_delimited _) fun _ => .ite (.fail _) (.pure _)
  | count + 2, _ => .bind (readConstant_delimited _) fun _ =>
    .ite (readSlots_delimited count _) (readSlots_delimited (count + 1) _)

theorem read_delimited : Delimited ConstantPool.read :=
  .bind .u16 fun _ => .map (readSlots_delimited _ _) _

end ConstantPool

/-! ### Attributes, members and the class -/

namespace ClassFile

open ClassDraft ClassDraft.History

theorem skipAttributes_delimited : Delimited skipAttributes :=
  .bind .u16 fun count => .map
    (.times (.bind (.skip 2) fun _ => .bind .u32 fun size => .skip size.toNat) count.toNat) _

theorem foldAttributes_delimited {α : Type} (pool : ConstantPool)
    (interpret : String → List UInt8 → α → Except Error α) : ∀ (count : Nat) (a : α),
    Delimited (foldAttributes pool interpret count a)
  | 0, a => .pure a
  | count + 1, _ => .bind .u16 fun _ => .bind (.ofExcept _) fun _ => .bind .u32 fun _ =>
    .bind (.take _) fun _ => .bind (.ofExcept _) fun a =>
      foldAttributes_delimited pool interpret count a

theorem readMember_delimited {α β : Type} (pool : ConstantPool)
    (interpret : String → List UInt8 → Option β → Except Error (Option β))
    (make : Access → String → String → Option β → α) :
    Delimited (readMember pool interpret make) :=
  .bind .u16 fun _ => .bind .u16 fun _ => .bind (.ofExcept _) fun _ => .bind .u16 fun _ =>
    .bind (.ofExcept _) fun _ => .bind .u16 fun _ => .map (foldAttributes_delimited _ _ _ _) _

theorem readField_delimited (pool : ConstantPool) : Delimited (readField pool) :=
  readMember_delimited pool (constantOf pool) Field.mk

theorem readMethod_delimited (pool : ConstantPool) : Delimited (readMethod pool) :=
  readMember_delimited pool bodyOf Method.mk

theorem readCounted_delimited {α : Type} {item : Reader α} (h : Delimited item) :
    Delimited (readCounted item) :=
  .bind .u16 fun count => h.times count.toNat

theorem reader_delimited : Delimited reader := by
  have hname : ∀ pool : ConstantPool, Delimited (do
      Reader.ofExcept (pool.className (← Reader.u16))) :=
    fun _ => .bind .u16 fun _ => .ofExcept _
  refine .bind .u32 fun _ => .guard ?_
  refine .bind .u16 fun _ => .bind .u16 fun _ => .bind ConstantPool.read_delimited fun pool => ?_
  refine .bind .u16 fun _ => .bind .u16 fun _ => .bind (.ofExcept _) fun _ => ?_
  refine .bind .u16 fun _ => .bind (.ofExcept _) fun _ => ?_
  refine .bind (readCounted_delimited (hname pool)) fun _ => ?_
  refine .bind (readCounted_delimited (readField_delimited pool)) fun _ => ?_
  refine .bind (readCounted_delimited (readMethod_delimited pool)) fun _ => ?_
  exact .map skipAttributes_delimited _

/-- A byte string with a class has it in its first bytes: whatever begins with them has the same
    class, and whatever is a proper beginning of them ends too early. In a class that was written,
    after any calls that added at most 65535 fields and as many methods, these are all bytes. -/
theorem ofBytes_takes :
    (∀ bytes file, ofBytes bytes = .ok file →
      ∃ k ≤ bytes.length, Takes reader bytes k file) ∧
    ∀ name superName access version draft calls,
      start name superName access version = .ok draft →
      (ofCalls draft calls).fields.length ≤ 65535 →
      (ofCalls draft calls).methods.length ≤ 65535 →
      ∃ bytes file, (ofCalls draft calls).draft.write = .ok bytes ∧
        Takes reader bytes bytes.length file := by
  refine ⟨fun bytes file h => reader_delimited.exists_takes h, ?_⟩
  intro name superName access version draft calls hstart hfields hmethods
  have hstands := ofCalls_stands hstart calls
  obtain ⟨bytes, hwrite, hreads⟩ := hstands.write_reads hfields hmethods
  have htakes := reader_delimited.takes (.of_reads hreads) []
  rw [List.append_nil] at htakes
  exact ⟨bytes, _, hwrite, htakes⟩

theorem ofBytes_takes_sample :
    ∃ draft bytes file, start "R$id" "java/lang/Object" .ofGeneratedClass 50 = .ok draft ∧
      (ofCalls draft sampleCalls).draft.write = .ok bytes ∧ bytes.length = 175 ∧
      ofBytes (bytes ++ [0xCA, 0xFE]) = .ok file ∧
      ∃ needed offset, ofBytes (bytes.take 100) = .error (.endOfInput needed offset) := by
  have hsample : (start "R$id" "java/lang/Object" .ofGeneratedClass 50).toOption.any (fun draft =>
      (ofCalls draft sampleCalls).fields.length = 1 ∧
      (ofCalls draft sampleCalls).methods.length = 1 ∧
      (ofCalls draft sampleCalls).draft.write.toOption.any (·.length = 175) = true) = true := by
    decide +kernel
  obtain ⟨draft, hstart, htests⟩ := Except.exists_of_any hsample
  obtain ⟨hfields, hmethods, hbytes⟩ := of_decide_eq_true htests
  obtain ⟨bytes, file, hwrite, htakes⟩ :=
    ofBytes_takes.2 _ _ _ _ draft sampleCalls hstart (by simp [hfields]) (by simp [hmethods])
  obtain ⟨written, hwritten, hlength⟩ := Except.exists_of_any hbytes
  rw [hwrite] at hwritten
  cases hwritten
  have hlength : bytes.length = 175 := of_decide_eq_true hlength
  have htail := htakes.enough (bytes ++ [0xCA, 0xFE]) (by simp)
  exact ⟨draft, bytes, file, hstart, hwrite, hlength, htail, htakes.needed 100 (by omega)⟩

end ClassFile

end ResourceMerge

import ResourceMerge.Proofs.PoolLayout
import ResourceMerge.Proofs.PoolRequests
import ResourceMerge.Proofs.Utf8

/-! A constant pool under construction is written as bytes that are read as its frozen pool. Every
    entry that a request can ask for is of a kind that takes one slot, and is written in the form of
    its kind, a text because its length fits two bytes and because reading UTF-8 gives it back. So
    what is written is the layout of entries that fill the slots of the frozen pool. -/

namespace ResourceMerge

open Binary

namespace PoolDraft

/-- What can be asked for is written as an entry of its kind. -/
theorem exists_entry {c : Constant} (h : c.IsWritable) : ∃ entry : PoolEntry, entry.Fits ∧
    writeConstant c = .ok entry.bytes ∧ entry.slots = [some c] := by
  cases c with
  | utf8 text =>
    have hlength := Text.length_utf8 text
    refine ⟨.utf8 (Text.utf8 text), le_of_eq_of_le hlength h, ?_, ?_⟩
    · rw [PoolEntry.bytes, hlength]
      rfl
    · change [some (Constant.utf8 (Text.lossy (Text.utf8 text)))] = _
      rw [Text.lossy_utf8]
  | integer v => exact ⟨.integer v, trivial, rfl, rfl⟩
  | classRef n => exact ⟨.classRef n, trivial, rfl, rfl⟩
  | fieldRef o nt => exact ⟨.fieldRef o nt, trivial, rfl, rfl⟩
  | nameAndType n d => exact ⟨.nameAndType n d, trivial, rfl, rfl⟩
  | _ => exact h.elim

/-- All entries are written, each in its form. -/
theorem written_entries : ∀ {constants : List Constant}, (∀ c ∈ constants, c.IsWritable) →
    ∃ entries : List PoolEntry, (∀ entry ∈ entries, entry.Fits) ∧
      constants.mapM writeConstant = .ok (entries.map PoolEntry.bytes) ∧
      entries.flatMap PoolEntry.slots = constants.map some
  | [], _ => ⟨[], nofun, rfl, rfl⟩
  | c :: constants, h => by
    rw [List.forall_mem_cons] at h
    obtain ⟨entry, hfits, hbytes, hslots⟩ := exists_entry h.1
    obtain ⟨entries, hall, hwritten, hfilled⟩ := written_entries h.2
    refine ⟨entry :: entries, List.forall_mem_cons.2 ⟨hfits, hall⟩, ?_, ?_⟩
    · rw [List.mapM_cons, hbytes, hwritten]
      rfl
    · rw [List.flatMap_cons, hslots, hfilled]
      rfl

/-- Writing never fails, and what is written is read as the frozen pool. -/
theorem write_reads {draft : PoolDraft} (h : ∀ c ∈ draft.entries.toList, c.IsWritable) :
    ∃ bytes, draft.write = .ok bytes ∧ Reads ConstantPool.read bytes draft.frozen := by
  obtain ⟨entries, hfits, hwritten, hslots⟩ := written_entries h
  have hfrozen : ConstantPool.ofEntries entries = draft.frozen := by
    simp [ConstantPool.ofEntries, frozen, hslots]
  have hsize : (ConstantPool.ofEntries entries).size = draft.entries.size + 1 := by
    simp [ConstantPool.size_ofEntries, hslots]
  refine ⟨ConstantPool.layout entries, ?_, ?_⟩
  · rw [write, hwritten, ConstantPool.layout, hsize]
    rfl
  · rw [← hfrozen]
    have hlimit := draft.size_le
    exact ConstantPool.layout_reads hfits (by omega)

end PoolDraft

end ResourceMerge

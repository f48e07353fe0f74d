import ResourceMerge.ClassFile.ConstantPool
import ResourceMerge.Proofs.Outcome

/-! Look-ups in a constant pool, told by the entries they lead through. A look-up that follows
    references succeeds exactly if each slot on its way holds an entry of the right kind, so it
    gives the same answer in every pool that holds at least these entries. -/

namespace ResourceMerge.ConstantPool

variable {p q : ConstantPool} {i : UInt16}

/-- Only slots that exist are usable. -/
theorem get_eq_ok {c : Constant} : p.get i = .ok c ↔ p.slots[i.toNat]? = some (some c) := by
  unfold get
  split
  · rename_i h
    simp [h]
  · rename_i h
    simp only [reduceCtorEq, false_iff]
    exact h c

theorem utf8_eq_ok {s : String} : p.utf8 i = .ok s ↔ p.get i = .ok (.utf8 s) := by
  unfold utf8
  cases p.get i with
  | error e => simp [bind, Except.bind]
  | ok c => cases c <;> simp [bind, Except.bind]

theorem className_eq_ok {s : String} :
    p.className i = .ok s ↔ ∃ n, p.get i = .ok (.classRef n) ∧ p.utf8 n = .ok s := by
  unfold className
  cases p.get i with
  | error e => simp [bind, Except.bind]
  | ok c => cases c <;> simp [bind, Except.bind]

theorem integer?_eq_some {v : Int32} : p.integer? i = .ok (some v) ↔ p.get i = .ok (.integer v) := by
  unfold integer?
  cases p.get i with
  | error e => simp [bind, Except.bind]
  | ok c => cases c <;> simp [bind, Except.bind]

/-- A field is reached through two references, each of which leads on to names. -/
theorem field_eq_ok {f : FieldRef} :
    p.field i = .ok f ↔ ∃ owner nameAndType name descriptor,
      p.get i = .ok (.fieldRef owner nameAndType) ∧
      p.get nameAndType = .ok (.nameAndType name descriptor) ∧
      p.className owner = .ok f.owner ∧ p.utf8 name = .ok f.name ∧
      p.utf8 descriptor = .ok f.descriptor := by
  constructor
  · intro h
    obtain ⟨c, hc, h⟩ := Except.bind_eq_ok.1 h
    cases c with
    | fieldRef owner nameAndType =>
      obtain ⟨c, hc', h⟩ := Except.bind_eq_ok.1 h
      cases c with
      | nameAndType name descriptor =>
        obtain ⟨o, ho, h⟩ := Except.bind_eq_ok.1 h
        obtain ⟨n, hn, h⟩ := Except.bind_eq_ok.1 h
        obtain ⟨d, hd, h⟩ := Except.bind_eq_ok.1 h
        cases h
        exact ⟨owner, nameAndType, name, descriptor, hc, hc', ho, hn, hd⟩
      | _ => cases h
    | _ => cases h
  · rintro ⟨owner, nameAndType, name, descriptor, hr, hnt, ho, hn, hd⟩
    simp [field, bind, Except.bind, pure, Except.pure, hr, hnt, ho, hn, hd]

/-- Every usable slot of `p` holds the same entry in `q`. -/
def Within (p q : ConstantPool) : Prop := ∀ i c, p.get i = .ok c → q.get i = .ok c

namespace Within

theorem refl (p : ConstantPool) : p.Within p := fun _ _ h => h

theorem trans {r : ConstantPool} (h : p.Within q) (h' : q.Within r) : p.Within r :=
  fun i c hc => h' i c (h i c hc)

theorem utf8 (h : p.Within q) {s : String} (hs : p.utf8 i = .ok s) : q.utf8 i = .ok s :=
  utf8_eq_ok.2 (h _ _ (utf8_eq_ok.1 hs))

theorem className (h : p.Within q) {s : String} (hs : p.className i = .ok s) :
    q.className i = .ok s := by
  obtain ⟨n, hn, hs⟩ := className_eq_ok.1 hs
  exact className_eq_ok.2 ⟨n, h _ _ hn, h.utf8 hs⟩

theorem integer? (h : p.Within q) {v : Int32} (hv : p.integer? i = .ok (some v)) :
    q.integer? i = .ok (some v) :=
  integer?_eq_some.2 (h _ _ (integer?_eq_some.1 hv))

theorem field (h : p.Within q) {f : FieldRef} (hf : p.field i = .ok f) : q.field i = .ok f := by
  obtain ⟨o, nt, n, d, hr, hnt, ho, hn, hd⟩ := field_eq_ok.1 hf
  exact field_eq_ok.2 ⟨o, nt, n, d, h _ _ hr, h _ _ hnt, h.className ho, h.utf8 hn, h.utf8 hd⟩

end Within

end ResourceMerge.ConstantPool

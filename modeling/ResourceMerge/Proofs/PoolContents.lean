import ResourceMerge.Proofs.PoolLookup

/-! What a constant pool holds, told by its slots alone. A class is reached through the slot of its
    name, a field through the slots of its class and of its name and type. A look-up answers what
    the pool holds in this sense, and fails if it holds nothing of the kind. -/

namespace ResourceMerge

/-- The integer that a constant is, if it is one. -/
def Constant.integer? : Constant → Option Int32
  | .integer v => some v
  | _ => none

namespace ConstantPool

variable {pool : ConstantPool} {i : UInt16}

/-- The slot exists, is usable and holds the constant. -/
def Holds (pool : ConstantPool) (i : UInt16) (c : Constant) : Prop :=
  pool.slots[i.toNat]? = some (some c)

instance (pool : ConstantPool) (i : UInt16) (c : Constant) : Decidable (pool.Holds i c) :=
  inferInstanceAs (Decidable (_ = _))

/-- The slot holds a text. -/
def HoldsText (pool : ConstantPool) (i : UInt16) (s : String) : Prop := pool.Holds i (.utf8 s)

instance (pool : ConstantPool) (i : UInt16) (s : String) : Decidable (pool.HoldsText i s) :=
  inferInstanceAs (Decidable (pool.Holds i (.utf8 s)))

/-- The slot holds a class of the name. -/
def HoldsClass (pool : ConstantPool) (i : UInt16) (name : String) : Prop :=
  ∃ n, pool.Holds i (.classRef n) ∧ pool.HoldsText n name

/-- The slot refers to the field: to its class, and to a pair of its name and its descriptor. -/
def HoldsField (pool : ConstantPool) (i : UInt16) (field : FieldRef) : Prop :=
  ∃ owner nameAndType name descriptor, pool.Holds i (.fieldRef owner nameAndType) ∧
    pool.Holds nameAndType (.nameAndType name descriptor) ∧ pool.HoldsClass owner field.owner ∧
    pool.HoldsText name field.name ∧ pool.HoldsText descriptor field.descriptor

theorem Holds.unique {c d : Constant} (h : pool.Holds i c) (h' : pool.Holds i d) : c = d := by
  have hsome : some (some c) = some (some d) := Eq.trans (Eq.symm h) h'
  simpa using hsome

theorem HoldsText.unique {s t : String} (h : pool.HoldsText i s) (h' : pool.HoldsText i t) :
    s = t :=
  Constant.utf8.inj (Holds.unique h h')

theorem HoldsClass.unique {s t : String} (h : pool.HoldsClass i s) (h' : pool.HoldsClass i t) :
    s = t := by
  obtain ⟨n, hn, hs⟩ := h
  obtain ⟨n', hn', ht⟩ := h'
  cases hn.unique hn'
  exact hs.unique ht

theorem utf8_iff_holds {s : String} : pool.utf8 i = .ok s ↔ pool.HoldsText i s := by
  rw [utf8_eq_ok, get_eq_ok]
  rfl

theorem className_iff_holds {s : String} : pool.className i = .ok s ↔ pool.HoldsClass i s := by
  simp only [className_eq_ok, get_eq_ok, utf8_iff_holds]
  rfl

theorem field_iff_holds {field : FieldRef} :
    pool.field i = .ok field ↔ pool.HoldsField i field := by
  simp only [field_eq_ok, get_eq_ok, className_iff_holds, utf8_iff_holds]
  rfl

/-- Of a constant that is no integer only its presence is known. -/
theorem integer?_iff_holds {v : Option Int32} :
    pool.integer? i = .ok v ↔ ∃ c, pool.Holds i c ∧ c.integer? = v := by
  constructor
  · intro h
    obtain ⟨c, hc, h⟩ := Except.bind_eq_ok.1 h
    refine ⟨c, get_eq_ok.1 hc, ?_⟩
    cases c <;> cases h <;> rfl
  · rintro ⟨c, hc, rfl⟩
    rw [integer?, get_eq_ok.2 hc]
    cases c <;> rfl

end ConstantPool

end ResourceMerge

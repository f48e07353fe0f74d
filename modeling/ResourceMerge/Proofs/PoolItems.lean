import ResourceMerge.Proofs.PoolRequests

/-! What stands in a constant pool, told by names and values instead of slots. An entry of a pool is
    that of an item if it refers to the names in the item. In a pool without repeated entries, items
    and their entries determine each other, so a pool can be described by its items alone. -/

namespace ResourceMerge.PoolDraft

/-- What a pool can be asked for. -/
inductive Item where
  | text (text : String)
  | integer (value : Int32)
  | classRef (name : String)
  | nameAndType (name descriptor : String)
  | fieldRef (field : FieldRef)
  deriving DecidableEq

namespace Item

/-- The request for the slot of an item. -/
def ask : Item → Request UInt16
  | .text s => utf8 s
  | .integer value => PoolDraft.integer value
  | .classRef name => PoolDraft.classRef name
  | .nameAndType name descriptor => PoolDraft.nameAndType name descriptor
  | .fieldRef field => PoolDraft.fieldRef field

/-- All items that have a slot when the item has one, in the order in which they are asked for. -/
def parts : Item → List Item
  | .text s => [.text s]
  | .integer value => [.integer value]
  | .classRef name => [.text name, .classRef name]
  | .nameAndType name descriptor =>
    [.text name, .text descriptor, .nameAndType name descriptor]
  | .fieldRef field =>
    [.text field.owner, .classRef field.owner, .text field.name, .text field.descriptor,
      .nameAndType field.name field.descriptor, .fieldRef field]

/-- Has the item by itself a form in a class file? A text takes at most 65535 bytes. -/
def fits : Item → Bool
  | .text s => s.utf8ByteSize ≤ 65535
  | _ => true

/-- The look-ups in a pool give the item back in the slot `i`. -/
def At (pool : ConstantPool) (i : UInt16) : Item → Prop
  | .text s => pool.utf8 i = .ok s
  | .integer value => pool.integer? i = .ok (some value)
  | .classRef name => pool.className i = .ok name
  | .nameAndType name descriptor => ∃ n d, pool.get i = .ok (.nameAndType n d) ∧
      pool.utf8 n = .ok name ∧ pool.utf8 d = .ok descriptor
  | .fieldRef field => pool.field i = .ok field

/-! ### Entries of items -/

/-- The entry is that of the item: what it refers to in the pool are the names in the item. -/
inductive Entry (pool : ConstantPool) : Item → Constant → Prop
  | text (s : String) : Entry pool (.text s) (.utf8 s)
  | integer (v : Int32) : Entry pool (.integer v) (.integer v)
  | classRef {name : String} {n : UInt16} (hname : pool.utf8 n = .ok name) :
    Entry pool (.classRef name) (.classRef n)
  | nameAndType {name descriptor : String} {n d : UInt16} (hname : pool.utf8 n = .ok name)
    (hdescriptor : pool.utf8 d = .ok descriptor) :
    Entry pool (.nameAndType name descriptor) (.nameAndType n d)
  | fieldRef {field : FieldRef} {o nt : UInt16} (howner : (classRef field.owner).At pool o)
    (hrest : (nameAndType field.name field.descriptor).At pool nt) :
    Entry pool (.fieldRef field) (.fieldRef o nt)

variable {pool pool' : ConstantPool} {item other : Item} {c c' : Constant} {i j : UInt16}

theorem at_iff : item.At pool i ↔ ∃ c, pool.get i = .ok c ∧ Entry pool item c := by
  constructor
  · intro h
    cases item with
    | text s => exact ⟨_, ConstantPool.utf8_eq_ok.1 h, .text s⟩
    | integer v => exact ⟨_, ConstantPool.integer?_eq_some.1 h, .integer v⟩
    | classRef name =>
      obtain ⟨n, hget, hname⟩ := ConstantPool.className_eq_ok.1 h
      exact ⟨_, hget, .classRef hname⟩
    | nameAndType name descriptor =>
      obtain ⟨n, d, hget, hname, hdescriptor⟩ := h
      exact ⟨_, hget, .nameAndType hname hdescriptor⟩
    | fieldRef field =>
      obtain ⟨o, nt, n, d, hget, hrest, howner, hname, hdescriptor⟩ := ConstantPool.field_eq_ok.1 h
      exact ⟨_, hget, .fieldRef howner ⟨n, d, hrest, hname, hdescriptor⟩⟩
  · rintro ⟨c, hget, hentry⟩
    cases hentry with
    | text s => exact ConstantPool.utf8_eq_ok.2 hget
    | integer v => exact ConstantPool.integer?_eq_some.2 hget
    | classRef hname => exact ConstantPool.className_eq_ok.2 ⟨_, hget, hname⟩
    | nameAndType hname hdescriptor => exact ⟨_, _, hget, hname, hdescriptor⟩
    | fieldRef howner hrest =>
      obtain ⟨n, d, hrest, hname, hdescriptor⟩ := hrest
      exact ConstantPool.field_eq_ok.2 ⟨_, _, n, d, hget, hrest, howner, hname, hdescriptor⟩

/-- A pool with more entries gives the same items back. -/
theorem At.within (h : item.At pool i) (hwithin : pool.Within pool') : item.At pool' i := by
  cases item with
  | text s => exact hwithin.utf8 h
  | integer v => exact hwithin.integer? h
  | classRef name => exact hwithin.className h
  | nameAndType name descriptor =>
    obtain ⟨n, d, hget, hname, hdescriptor⟩ := h
    exact ⟨n, d, hwithin _ _ hget, hwithin.utf8 hname, hwithin.utf8 hdescriptor⟩
  | fieldRef field => exact hwithin.field h

theorem Entry.within (h : Entry pool item c) (hwithin : pool.Within pool') :
    Entry pool' item c := by
  cases h with
  | text s => exact .text s
  | integer v => exact .integer v
  | classRef hname => exact .classRef (hwithin.utf8 hname)
  | nameAndType hname hdescriptor =>
    exact .nameAndType (hwithin.utf8 hname) (hwithin.utf8 hdescriptor)
  | fieldRef howner hrest => exact .fieldRef (howner.within hwithin) (hrest.within hwithin)

/-- An entry is that of one item. -/
theorem Entry.unique (h : Entry pool item c) (h' : Entry pool other c) : item = other := by
  cases h with
  | text s =>
    cases h'
    rfl
  | integer v =>
    cases h'
    rfl
  | classRef hname =>
    cases h' with
    | classRef hname' => rw [Except.ok.inj (hname.symm.trans hname')]
  | nameAndType hname hdescriptor =>
    cases h' with
    | nameAndType hname' hdescriptor' =>
      rw [Except.ok.inj (hname.symm.trans hname'),
        Except.ok.inj (hdescriptor.symm.trans hdescriptor')]
  | @fieldRef field o nt howner hrest =>
    cases h' with
    | @fieldRef field' _ _ howner' hrest' =>
      obtain ⟨n, d, hget, hname, hdescriptor⟩ := hrest
      obtain ⟨n', d', hget', hname', hdescriptor'⟩ := hrest'
      cases Except.ok.inj (hget.symm.trans hget')
      have hsame : field.owner = field'.owner := Except.ok.inj (howner.symm.trans howner')
      have hsame' : field.name = field'.name := Except.ok.inj (hname.symm.trans hname')
      have hsame'' : field.descriptor = field'.descriptor :=
        Except.ok.inj (hdescriptor.symm.trans hdescriptor')
      obtain ⟨owner, name, descriptor⟩ := field
      cases hsame
      cases hsame'
      cases hsame''
      rfl

/-- No entry stands in two slots. -/
def Distinct (pool : ConstantPool) : Prop :=
  ∀ i j c, pool.get i = .ok c → pool.get j = .ok c → i = j

namespace Distinct

variable (hpool : Distinct pool)
include hpool

theorem utf8 {s : String} (h : pool.utf8 i = .ok s) (h' : pool.utf8 j = .ok s) : i = j :=
  hpool _ _ _ (ConstantPool.utf8_eq_ok.1 h) (ConstantPool.utf8_eq_ok.1 h')

theorem className {s : String} (h : pool.className i = .ok s) (h' : pool.className j = .ok s) :
    i = j := by
  obtain ⟨n, hget, hname⟩ := ConstantPool.className_eq_ok.1 h
  obtain ⟨n', hget', hname'⟩ := ConstantPool.className_eq_ok.1 h'
  cases hpool.utf8 hname hname'
  exact hpool _ _ _ hget hget'

theorem nameAndType {name descriptor : String} (h : (nameAndType name descriptor).At pool i)
    (h' : (Item.nameAndType name descriptor).At pool j) : i = j := by
  obtain ⟨n, d, hget, hname, hdescriptor⟩ := h
  obtain ⟨n', d', hget', hname', hdescriptor'⟩ := h'
  cases hpool.utf8 hname hname'
  cases hpool.utf8 hdescriptor hdescriptor'
  exact hpool _ _ _ hget hget'

/-- An item has one entry. -/
theorem entry (h : Entry pool item c) (h' : Entry pool item c') : c = c' := by
  cases h with
  | text s =>
    cases h'
    rfl
  | integer v =>
    cases h'
    rfl
  | classRef hname =>
    cases h' with
    | classRef hname' => rw [hpool.utf8 hname hname']
  | nameAndType hname hdescriptor =>
    cases h' with
    | nameAndType hname' hdescriptor' =>
      rw [hpool.utf8 hname hname', hpool.utf8 hdescriptor hdescriptor']
  | fieldRef howner hrest =>
    cases h' with
    | fieldRef howner' hrest' =>
      rw [hpool.className howner howner', hpool.nameAndType hrest hrest']

end Distinct

/-- Such an entry can be written. -/
theorem Entry.isWritable (h : Entry pool item c) (hfits : item.fits = true) : c.IsWritable := by
  cases h with
  | text s =>
    have hsize : s.utf8ByteSize ≤ 65535 := of_decide_eq_true hfits
    exact hsize
  | _ => trivial

end Item

end ResourceMerge.PoolDraft

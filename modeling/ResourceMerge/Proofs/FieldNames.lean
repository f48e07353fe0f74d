import ResourceMerge.Proofs.ClassOpening
import ResourceMerge.Proofs.SharedTable

/-! Names of constants, as the bytes of a class file and as the names of a table. A name is any
    bytes, and becomes a text in which a replacement character stands for what is not UTF-8. So
    different names may become one text, also names that a class file is right to have: it writes a
    character beyond U+FFFF as two surrogates, and each byte of these is replaced. A class without
    an initialiser keeps all its constants exactly if the texts of their names are distinct, which
    they are if the names are distinct and written in UTF-8. -/

namespace ResourceMerge

open Binary

/-- A slot holds the text of the bytes that stand there. -/
theorem ConstantPool.holdsText_ofEntries {entries : List PoolEntry} {i : UInt16} {s : String} :
    (ofEntries entries).HoldsText i s ↔
      ∃ name, StandsAt entries i.toNat (.utf8 name) ∧ s = Text.lossy name := by
  rw [HoldsText, Holds, ← get_eq_ok, (comprises_ofEntries entries).get]
  constructor
  · rintro ⟨entry, hstands, hconstant⟩
    cases entry with
    | utf8 name => exact ⟨name, hstands, Constant.utf8.inj hconstant⟩
    | _ => cases hconstant
  · rintro ⟨name, hstands, rfl⟩
    exact ⟨_, hstands, rfl⟩

/-! ### The names in a class file -/

namespace FieldForm

variable {entries : List PoolEntry} {forms : List FieldForm} {fields : List Field}
  {names : List (List UInt8)}

/-- In the slot of the name of each field stand these bytes. -/
def Named (entries : List PoolEntry) : List FieldForm → List (List UInt8) → Prop :=
  List.Forall₂ fun f name => ConstantPool.StandsAt entries f.name.toNat (.utf8 name)

theorem exists_named (h : List.Forall₂ (fun f field =>
    (ConstantPool.ofEntries entries).HoldsText f.name field.name) forms fields) :
    ∃ names, Named entries forms names := by
  induction h with
  | nil => exact ⟨[], .nil⟩
  | cons hfield _ ih =>
    obtain ⟨name, hname, -⟩ := ConstantPool.holdsText_ofEntries.1 hfield
    obtain ⟨names, hnames⟩ := ih
    exact ⟨name :: names, .cons hname hnames⟩

theorem Named.texts (hnames : Named entries forms names) (h : List.Forall₂ (fun f field =>
    (ConstantPool.ofEntries entries).HoldsText f.name field.name) forms fields) :
    fields.map Field.name = names.map Text.lossy := by
  induction hnames generalizing fields with
  | nil =>
    cases h
    rfl
  | cons hname _ ih =>
    cases h with
    | cons hfield hfields =>
      have htext := hfield.unique (ConstantPool.holdsText_ofEntries.2 ⟨_, hname, rfl⟩)
      rw [List.map_cons, List.map_cons, htext, ih hfields]

end FieldForm

namespace ClassFile

variable {bytes : List UInt8} {names : List (List UInt8)} {file : ClassFile}

/-- The fields of a class file have these names, each told by its bytes. -/
def NameBytes (bytes : List UInt8) (names : List (List UInt8)) : Prop :=
  ∃ (o : ClassOpening) (rest : List UInt8), o.Fits ∧ bytes = o.bytes ++ rest ∧
    FieldForm.Named o.constants o.fields names

theorem exists_nameBytes (h : ofBytes bytes = .ok file) : ∃ names, NameBytes bytes names := by
  obtain ⟨o, rest, hfits, rfl⟩ := ClassOpening.exists_opening h
  obtain ⟨names, hnames⟩ := FieldForm.exists_named (ClassOpening.names_of_ofBytes hfits h)
  exact ⟨names, o, rest, hfits, rfl, hnames⟩

/-- The fields that are read have the texts of these bytes as names. -/
theorem NameBytes.texts (hnames : NameBytes bytes names) (h : ofBytes bytes = .ok file) :
    file.fields.map Field.name = names.map Text.lossy := by
  obtain ⟨o, rest, hfits, rfl, hnames⟩ := hnames
  exact hnames.texts (ClassOpening.names_of_ofBytes hfits h)

end ClassFile

/-! ### The names in a table -/

namespace Harvest

variable {filter : NameFilter} {bytes : List UInt8} {names : List (List UInt8)} {file : ClassFile}

/-- The names of the fields with an integer constant. -/
def constantNames (names : List (List UInt8)) (fields : List Field) : List (List UInt8) :=
  (names.zip fields).filterMap fun entry => entry.2.intConstant.map fun _ => entry.1

theorem qualified_injective (simple : String) : Function.Injective (qualified simple) := by
  intro a b h
  simpa [qualified, ← String.toList_inj] using h

theorem names_constants (simple : String) : ∀ {names : List (List UInt8)} {fields : List Field},
    fields.map Field.name = names.map Text.lossy →
      (constants simple fields).map Prod.fst
        = ((constantNames names fields).map Text.lossy).map (qualified simple)
  | [], [], _ => rfl
  | name :: names, field :: fields, h => by
    obtain ⟨hname, hnames⟩ := List.cons_eq_cons.1 h
    have hrest := names_constants simple hnames
    unfold constants constantNames at hrest ⊢
    cases hconstant : field.intConstant <;> simp [hconstant, hname, hrest]

/-- The table of the class has each integer constant of a field, in the order of the fields, and
    nothing else. -/
def KeepsConstants (filter : NameFilter) (bytes : List UInt8) (file : ClassFile) : Prop :=
  ∃ table, ofClass filter bytes = .ok table ∧
    table.scalars.entries = constants (simpleName file.thisClass) file.fields ∧
    table.arrays.entries = []

theorem keepsConstants_iff (hread : ClassFile.ofBytes bytes = .ok file)
    (hnone : file.initializer? = none) (hfilter : filter.accepts (simpleName file.thisClass)) :
    KeepsConstants filter bytes file ↔
      ((constants (simpleName file.thisClass) file.fields).map Prod.fst).Nodup := by
  constructor
  · rintro ⟨table, -, hscalars, -⟩
    exact hscalars ▸ table.scalars.distinct
  · intro hdistinct
    obtain ⟨table, hinsert, harrays, hscalars⟩ := insertConstants_fresh file.fields .empty hdistinct
    refine ⟨table, Except.bind_eq_ok.2 ⟨file, hread, ?_⟩, hscalars, by rw [harrays]; rfl⟩
    have hcontribute : contribute file .empty = .ok () table := by
      refine bind_eq_ok.2 ⟨(), table, hinsert, ?_⟩
      rw [hnone]
      rfl
    rw [if_pos hfilter, outcome, hcontribute]

/-- A class without an initialiser, accepted by the filter, keeps all its integer constants exactly
    if the texts of their names are distinct. It does so if the names are distinct and in UTF-8. -/
theorem constants_kept_iff {filter : NameFilter} {bytes : List UInt8} {file : ClassFile}
    (hread : ClassFile.ofBytes bytes = .ok file) (hnone : file.initializer? = none)
    (hfilter : filter.accepts (simpleName file.thisClass)) :
    (∃ names, ClassFile.NameBytes bytes names) ∧
    ∀ names, ClassFile.NameBytes bytes names →
      file.fields.map Field.name = names.map Text.lossy ∧
      (KeepsConstants filter bytes file ↔
        ((constantNames names file.fields).map Text.lossy).Nodup) ∧
      ((constantNames names file.fields).Nodup →
        (∀ name ∈ constantNames names file.fields, ∃ s, name = Text.utf8 s) →
          KeepsConstants filter bytes file) := by
  refine ⟨ClassFile.exists_nameBytes hread, fun names hnames => ?_⟩
  have htexts := hnames.texts hread
  have hiff : KeepsConstants filter bytes file ↔
      ((constantNames names file.fields).map Text.lossy).Nodup := by
    rw [keepsConstants_iff hread hnone hfilter, names_constants _ htexts,
      List.nodup_map_iff (qualified_injective _)]
  refine ⟨htexts, hiff, fun hdistinct hutf8 => hiff.2 (hdistinct.map_on ?_)⟩
  intro a ha b hb hab
  obtain ⟨s, rfl⟩ := hutf8 a ha
  obtain ⟨t, rfl⟩ := hutf8 b hb
  rw [Text.lossy_utf8, Text.lossy_utf8] at hab
  rw [hab]

/-- The class `R$string` up to its last field: two fields with the constants 1 and 2, under names of
    any bytes. -/
def sampleOpening (first second : List UInt8) : ClassOpening where
  minorVersion := 0
  majorVersion := 50
  slots := 11
  constants := [.utf8 (Text.utf8 "R$string"), .classRef 1, .utf8 (Text.utf8 "java/lang/Object"),
    .classRef 3, .utf8 first, .utf8 second, .utf8 (Text.utf8 "I"),
    .utf8 (Text.utf8 ClassFile.constantValueAttribute), .integer 1, .integer 2]
  access := 4129
  thisClass := 2
  superClass := 4
  interfaces := []
  fields := [⟨25, 5, 7, [⟨8, u16 9⟩]⟩, ⟨25, 6, 7, [⟨8, u16 10⟩]⟩]

/-- The class with neither methods nor attributes. -/
def sampleClass (first second : List UInt8) : List UInt8 :=
  (sampleOpening first second).bytes ++ (u16 0 ++ u16 0)

theorem nameBytes_sampleClass {first second : List UInt8} (hfirst : first.length ≤ 65535)
    (hsecond : second.length ≤ 65535) :
    ClassFile.NameBytes (sampleClass first second) [first, second] := by
  let constants := (sampleOpening first second).constants
  have hconstants : ∀ entry ∈ constants, entry.Fits := by
    simp only [constants, sampleOpening, List.forall_mem_cons]
    exact ⟨by decide, trivial, by decide, trivial, hfirst, hsecond, by decide, by decide, trivial,
      trivial, nofun⟩
  have hfields : ∀ f ∈ (sampleOpening first second).fields, f.Fits :=
    List.forall_mem_cons.2 ⟨by decide, List.forall_mem_singleton.2 (by decide)⟩
  refine ⟨_, _, ⟨hconstants, .inl rfl, Nat.zero_le _, Nat.le_of_ble_eq_true rfl, hfields⟩, rfl, ?_⟩
  exact .cons ⟨constants.take 4, constants.drop 5, rfl, rfl⟩
    (.cons ⟨constants.take 5, constants.drop 6, rfl, rfl⟩ .nil)

theorem constants_kept_iff_sample :
    ∃ filter file, NameFilter.ofGlob NameFilter.defaultGlob = .ok filter ∧
      ClassFile.ofBytes (sampleClass [0x61] [0x62]) = .ok file ∧
      KeepsConstants filter (sampleClass [0x61] [0x62]) file := by
  have hsample : (NameFilter.ofGlob NameFilter.defaultGlob).toOption.any (fun filter =>
      (ClassFile.ofBytes (sampleClass [0x61] [0x62])).toOption.any fun file =>
        file.initializer? = none ∧ filter.accepts (simpleName file.thisClass) = true ∧
          constantNames [[0x61], [0x62]] file.fields = [[0x61], [0x62]]) = true := by
    decide +kernel
  obtain ⟨filter, hglob, hfile⟩ := Except.exists_of_any hsample
  obtain ⟨file, hread, hfacts⟩ := Except.exists_of_any hfile
  obtain ⟨hnone, hfilter, hnames⟩ := of_decide_eq_true hfacts
  obtain ⟨-, -, hkeeps⟩ := (constants_kept_iff hread hnone hfilter).2 [[0x61], [0x62]]
    (nameBytes_sampleClass (by decide) (by decide))
  rw [hnames, List.forall_mem_cons, List.forall_mem_singleton] at hkeeps
  exact ⟨filter, file, hglob, hread, hkeeps (by decide) ⟨⟨"a", by decide⟩, ⟨"b", by decide⟩⟩⟩

/-- The names of two letters beyond U+FFFF, as a class file has them. -/
def sampleSurrogates : List UInt8 × List UInt8 :=
  ([0xED, 0xA0, 0x81, 0xED, 0xB0, 0x80], [0xED, 0xA0, 0x81, 0xED, 0xB0, 0x81])

/-- Distinct names alone are not enough: these two become one text, and the constants of the class
    contradict each other. -/
theorem surrogates_conflated :
    ¬ ∀ (filter : NameFilter) (bytes : List UInt8) (file : ClassFile) (names : List (List UInt8)),
      ClassFile.ofBytes bytes = .ok file → file.initializer? = none →
        filter.accepts (simpleName file.thisClass) → ClassFile.NameBytes bytes names →
          (constantNames names file.fields).Nodup → KeepsConstants filter bytes file := by
  intro hall
  have hsample : (NameFilter.ofGlob NameFilter.defaultGlob).toOption.any (fun filter =>
      (ClassFile.ofBytes (sampleClass sampleSurrogates.1 sampleSurrogates.2)).toOption.any fun file =>
        file.initializer? = none ∧ filter.accepts (simpleName file.thisClass) = true ∧
          (constantNames [sampleSurrogates.1, sampleSurrogates.2] file.fields).Nodup ∧
          (ofClass filter (sampleClass sampleSurrogates.1 sampleSurrogates.2)).toOption = none) =
            true := by
    decide +kernel
  obtain ⟨filter, -, hfile⟩ := Except.exists_of_any hsample
  obtain ⟨file, hread, hfacts⟩ := Except.exists_of_any hfile
  obtain ⟨hnone, hfilter, hdistinct, hfails⟩ := of_decide_eq_true hfacts
  obtain ⟨table, htable, -⟩ := hall filter _ file _ hread hnone hfilter
    (nameBytes_sampleClass (by decide) (by decide)) hdistinct
  rw [htable] at hfails
  cases hfails

end Harvest

end ResourceMerge

import ResourceMerge.Proofs.MergeLaws
import ResourceMerge.Proofs.MergedUnion

/-! The first failure of a merge of classes. All tables are there before the first of them is merged,
    so the errors of later classes are known when an earlier one is met; yet the merge ends at the
    first class that cannot be merged into those before it, with the same error whatever comes
    behind. Either that class has no table, or its table has an entry that differs from what the
    classes before it hold. The accumulated table does not say which of them a value came from. It
    is their union, though, so it holds what the first class that has the name holds. -/

namespace ResourceMerge

variable {α : Type}

/-- A loop fails at the first item that fails, in the state that the items before it lead to. -/
theorem forM_eq_error {ε σ : Type} {f : α → EStateM ε σ PUnit} {u : σ} {e : ε} :
    ∀ {xs : List α} {s : σ}, xs.forM f s = .error e u ↔ ∃ before x behind t,
      xs = before ++ x :: behind ∧ before.forM f s = .ok ⟨⟩ t ∧ f x t = .error e u
  | [], s => by
    constructor
    · intro h
      cases h
    · rintro ⟨before, x, behind, t, hnil, -⟩
      cases before <;> cases hnil
  | y :: xs, s => by
    rw [List.forM, bind_eq_error]
    constructor
    · rintro (hy | ⟨_, middle, hy, hrest⟩)
      · exact ⟨[], y, xs, s, rfl, rfl, hy⟩
      · obtain ⟨before, x, behind, t, rfl, hbefore, hx⟩ := forM_eq_error.1 hrest
        exact ⟨y :: before, x, behind, t, rfl, bind_eq_ok.2 ⟨_, middle, hy, hbefore⟩, hx⟩
    · rintro ⟨_ | ⟨z, before⟩, x, behind, t, heq, hbefore, hx⟩
      · cases heq
        cases hbefore
        exact .inl hx
      · cases heq
        obtain ⟨_, middle, hy, hrest⟩ := bind_eq_ok.1 hbefore
        exact .inr ⟨_, middle, hy, forM_eq_error.2 ⟨before, x, behind, t, rfl, hrest, hx⟩⟩

/-! ### Where a value came from -/

namespace Registry

variable {parts : List (Registry α)} {r u : Registry α} {name : String} {held offered value : α}

/-- The value of a name in the first registry that has the name. -/
def firstValue? (parts : List (Registry α)) (name : String) : Option α :=
  parts.findSome? fun r => r.find? name

/-- The first of the entries that differs from what some of the registries hold under its name. Held
    is the value of the first registry that has the name. -/
structure Disputed (parts : List (Registry α)) (entries : List (String × α)) (name : String)
    (held offered : α) : Prop where
  place : ∃ before behind, entries = before ++ (name, offered) :: behind ∧
    ∀ r ∈ parts, Agree r.entries before
  first : firstValue? parts name = some held
  differs : held ≠ offered

theorem held_of_firstValue? (h : firstValue? parts name = some value) : Held parts name value := by
  obtain ⟨before, r, behind, rfl, hfound, -⟩ := List.findSome?_eq_some_iff.1 h
  exact ⟨r, by simp, hfound⟩

/-- A union holds what the first part that has the name holds. -/
theorem firstValue?_of_isUnion (hu : IsUnion parts u) (h : u.find? name = some value) :
    firstValue? parts name = some value := by
  obtain ⟨r, hr, hfound⟩ := (hu.find? name value).1 h
  cases hfirst : firstValue? parts name with
  | none =>
    have hnone := List.findSome?_eq_none_iff.1 hfirst r hr
    rw [hfound] at hnone
    cases hnone
  | some v =>
    have hv := (hu.find? name v).2 (held_of_firstValue? hfirst)
    rwa [h, eq_comm] at hv

/-- Each part agrees with what the union agrees with. -/
theorem agree_of_isUnion (hu : IsUnion parts u) {entries : List (String × α)}
    (h : Agree u.entries entries) (hr : r ∈ parts) : Agree r.entries entries := by
  intro name v w hv hw
  have hheld := (hu.find? name v).2 ⟨r, hr, find?_eq_some_iff.2 hv⟩
  exact h name v w (find?_eq_some_iff.1 hheld) hw

/-- What clashes with a union is disputed by its parts. -/
theorem disputed_of_clash (hu : IsUnion parts u) {entries : List (String × α)}
    (h : u.Clash entries name held offered) : Disputed parts entries name held offered where
  place := by
    obtain ⟨before, behind, hentries, hagree⟩ := h.place
    exact ⟨before, behind, hentries, fun r hr => agree_of_isUnion hu hagree hr⟩
  first := firstValue?_of_isUnion hu h.holds
  differs := h.differs

end Registry

namespace SymbolTable

variable {parts : List SymbolTable} {t table : SymbolTable} {e : Error}

/-- The error of the first entry of a table that differs from what other tables hold, scalars before
    arrays. It expects the value of the first of these tables that has the name. -/
inductive Disputed (parts : List SymbolTable) (table : SymbolTable) : Error → Prop
  | scalar {name : String} {held offered : Int32}
      (first : Registry.Disputed (parts.map scalars) table.scalars.entries name held offered) :
      Disputed parts table (.conflict name (.scalar held) (.scalar offered))
  | array {name : String} {held offered : List Int32}
      (scalars : ∀ part ∈ parts, part.scalars.Agrees table.scalars)
      (first : Registry.Disputed (parts.map arrays) table.arrays.entries name held offered) :
      Disputed parts table (.conflict name (.array held) (.array offered))

theorem disputed_of_clash (ht : IsUnion parts t) (h : t.Clash table e) :
    Disputed parts table e := by
  cases h with
  | scalar first => exact .scalar (Registry.disputed_of_clash ht.scalars first)
  | array scalars first =>
    refine .array (fun part hpart => ?_) (Registry.disputed_of_clash ht.arrays first)
    have hmem : part.scalars ∈ parts.map SymbolTable.scalars := List.mem_map_of_mem hpart
    exact Registry.agrees_iff.2
      (Registry.agree_of_isUnion ht.scalars (Registry.agrees_iff.1 scalars) hmem)

end SymbolTable

/-! ### The class at which a merge ends -/

namespace Harvest

open MergedClass

variable {filter : NameFilter} {inputs : List (List UInt8)} {e : Error}

/-- The class cannot be merged into classes with these tables: it has no table, or its table has an
    entry that differs from theirs. -/
inductive Fails (filter : NameFilter) (parts : List SymbolTable) (bytes : List UInt8) :
    Error → Prop
  | unread {e : Error} (hclass : ofClass filter bytes = .error e) : Fails filter parts bytes e
  | disputed {table : SymbolTable} {e : Error} (hclass : ofClass filter bytes = .ok table)
      (hentry : SymbolTable.Disputed parts table e) : Fails filter parts bytes e

theorem ofClasses_eq_error :
    ofClasses filter inputs = .error e ↔ ∃ u, mergeAll filter inputs .empty = .error e u := by
  unfold ofClasses outcome
  cases mergeAll filter inputs .empty with
  | ok _ u => simp
  | error e u => simp

/-- A merge of classes that fails has a first class at which it fails: those before it have a merged
    table, and that class cannot be merged into it, whatever comes behind. -/
theorem exists_first_failure (h : ofClasses filter inputs = .error e) :
    ∃ before bytes behind parts, inputs = before ++ bytes :: behind ∧
      (∃ t, ofClasses filter before = .ok t) ∧ before.mapM (ofClass filter) = .ok parts ∧
      (∀ others, ofClasses filter (before ++ bytes :: others) = .error e) ∧
      Fails filter parts bytes e := by
  obtain ⟨u, hmerge⟩ := ofClasses_eq_error.1 h
  obtain ⟨before, bytes, behind, t, rfl, hbefore, hbytes⟩ := forM_eq_error.1 hmerge
  have ht : ofClasses filter before = .ok t := ofClasses_eq_ok.2 hbefore
  obtain ⟨parts, hparts, hunion⟩ := isUnion_of_ofClasses ht
  refine ⟨before, bytes, behind, parts, rfl, ⟨t, ht⟩, hparts, fun others => ?_, ?_⟩
  · exact ofClasses_eq_error.2 ⟨u, forM_eq_error.2 ⟨before, bytes, others, t, rfl, hbefore, hbytes⟩⟩
  · cases hclass : ofClass filter bytes with
    | error e' =>
      simp only [hclass] at hbytes
      cases hbytes
      exact .unread hclass
    | ok table =>
      simp only [hclass] at hbytes
      have hclash := SymbolTable.merge_fails_iff.1 ⟨u, hbytes⟩
      exact .disputed hclass (SymbolTable.disputed_of_clash hunion hclash)

/-- Classes that merge do so up to any place among them. -/
theorem ofClasses_take {t : SymbolTable} (h : ofClasses filter inputs = .ok t) (j : Nat) :
    ∃ u, ofClasses filter (inputs.take j) = .ok u := by
  have hall := ofClasses_eq_ok.1 h
  rw [← List.take_append_drop j inputs] at hall
  obtain ⟨u, hu, -⟩ := mergeAll_append.1 hall
  exact ⟨u, ofClasses_eq_ok.2 hu⟩

/-- A merge of classes that fails does so at the first class up to which the classes do not merge,
    and with the same error whatever classes come behind that one. The error is that of the class
    alone, or the conflict over the first entry of its table that differs from a table of a class
    before it: the conflict expects the value of the first class that has the name, and finds that
    of the class at which the merge fails. How the tables are computed does not matter. -/
theorem ofTables_first_failure {spread : Spread}
    (hspread : ∀ f inputs (i : Nat), (spread f inputs)[i]? = inputs[i]?.map f) (threshold : Nat)
    (filter : NameFilter) (inputs : List (List UInt8)) (e : Error)
    (h : ofTables spread threshold filter inputs = .error e) :
    ∃ k bytes parts, inputs[k]? = some bytes ∧
      (∀ j < k, ∃ t, ofTables spread threshold filter (inputs.take (j + 1)) = .ok t) ∧
      (∀ threshold' behind,
        ofTables spread threshold' filter (inputs.take (k + 1) ++ behind) = .error e) ∧
      (inputs.take k).mapM (ofClass filter) = .ok parts ∧ Fails filter parts bytes e := by
  simp only [ofTables_eq hspread] at h ⊢
  obtain ⟨before, bytes, behind, parts, rfl, ⟨t, ht⟩, hparts, hothers, hfails⟩ :=
    exists_first_failure h
  refine ⟨before.length, bytes, parts, by simp, fun j hj => ?_, fun _ others => ?_, ?_, hfails⟩
  · rw [List.take_append_of_le_length hj]
    exact ofClasses_take ht (j + 1)
  · have htake : (before ++ bytes :: behind).take (before.length + 1) = before ++ [bytes] := by
      rw [List.take_length_add_append, List.take_succ_cons, List.take_zero]
    rw [htake, List.append_assoc, List.singleton_append]
    exact hothers others
  · rw [List.take_left]
    exact hparts

/-- A filter and three classes; the third one disagrees with the second one. -/
def sampleDispute : Except Error (NameFilter × List UInt8 × List UInt8 × List UInt8) := do
  let filter ← NameFilter.ofGlob defaultName
  let first ← build ⟨.empty, ⟨[("a", [7, 8])], by decide⟩⟩ defaultTarget
  let second ← build ⟨.empty, ⟨[("b", [1]), ("a", [7, 8])], by decide⟩⟩ defaultTarget
  let third ← build ⟨.empty, ⟨[("a", [7, 8]), ("b", [2])], by decide⟩⟩ defaultTarget
  return (filter, first, second, third)

/-- Behind the class that disagrees stands one that cannot be read. -/
theorem ofTables_first_failure_sample :
    ∃ filter first second third parts, sampleDispute = .ok (filter, first, second, third) ∧
      ofTables halves 9 filter [first, second, third, [0]]
        = .error (.conflict "b" (.array [1]) (.array [2])) ∧
      [first, second].mapM (ofClass filter) = .ok parts ∧
      Fails filter parts third (.conflict "b" (.array [1]) (.array [2])) ∧
      ∀ behind, ofTables halves 2 filter ([first, second, third] ++ behind)
        = .error (.conflict "b" (.array [1]) (.array [2])) := by
  have hsample : sampleDispute.toOption.any (fun (filter, first, second, third) =>
      ofTables halves 9 filter [first, second, third, [0]]
        = .error (.conflict "b" (.array [1]) (.array [2])) ∧
      (ofTables halves 9 filter [first]).toOption.isSome ∧
      (ofTables halves 9 filter [first, second]).toOption.isSome ∧
      (ofTables halves 9 filter [first, second, third]).toOption.isNone) = true := by
    decide +kernel
  obtain ⟨⟨filter, first, second, third⟩, hclasses, htests⟩ := Except.exists_of_any hsample
  obtain ⟨h, hone, htwo, hthree⟩ := of_decide_eq_true htests
  obtain ⟨k, bytes, parts, hbytes, hbefore, hbehind, hparts, hfails⟩ :=
    ofTables_first_failure getElem?_halves 9 filter _ _ h
  have hk : k = 2 := by
    rcases Nat.lt_trichotomy k 2 with hlt | heq | hgt
    · interval_cases k
      · have hhere : ofTables halves 9 filter [first] = .error _ := hbehind 9 []
        rw [hhere] at hone
        cases hone
      · have hhere : ofTables halves 9 filter [first, second] = .error _ := hbehind 9 []
        rw [hhere] at htwo
        cases htwo
    · exact heq
    · obtain ⟨t, ht⟩ := hbefore 2 hgt
      have hhere : ofTables halves 9 filter [first, second, third] = .ok t := ht
      rw [hhere] at hthree
      cases hthree
  subst hk
  cases hbytes
  exact ⟨filter, first, second, third, parts, hclasses, h, hparts, hfails, hbehind 2⟩

end Harvest

end ResourceMerge

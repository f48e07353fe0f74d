import ResourceMerge.Proofs.StagedMerge
import ResourceMerge.Proofs.Union

/-! Which classes merge, and what to. Every class has a table of its own, and the merged table is
    the union of these tables, if there is one: a merge of classes fails exactly if one of them has
    no table or two tables disagree. So classes may be listed in another order or several times, and
    classes that the filter rejects may be listed or not. Where the tables are computed at the same
    time, nothing else changes, as long as each of them ends up in the place of its class. -/

namespace ResourceMerge

/-- What a sequence of computations gives, if all of them succeed. -/
theorem Except.mapM_eq_ok {ε α β : Type} {f : α → Except ε β} : ∀ {xs : List α} {ys : List β},
    xs.mapM f = .ok ys ↔ List.Forall₂ (fun x y => f x = .ok y) xs ys
  | [], ys => by
    constructor
    · intro h
      cases h
      exact .nil
    · rintro ⟨⟩
      rfl
  | x :: xs, ys => by
    rw [List.mapM_cons, bind_eq_ok]
    constructor
    · rintro ⟨y, hy, hrest⟩
      obtain ⟨rest, hxs, ⟨⟩⟩ := bind_eq_ok.1 hrest
      exact .cons hy (mapM_eq_ok.1 hxs)
    · rintro (_ | ⟨hy, hrest⟩)
      exact ⟨_, hy, bind_eq_ok.2 ⟨_, mapM_eq_ok.2 hrest, rfl⟩⟩

/-- Every result comes from somewhere. -/
theorem Except.mem_of_mapM {ε α β : Type} {f : α → Except ε β} {xs : List α} {ys : List β}
    (h : xs.mapM f = .ok ys) {y : β} : y ∈ ys ↔ ∃ x ∈ xs, f x = .ok y := by
  induction mapM_eq_ok.1 h with
  | nil => simp
  | @cons x z xs ys hx hrest ih =>
    rw [List.mem_cons, ih (mapM_eq_ok.2 hrest), eq_comm (a := y)]
    simp only [List.mem_cons, exists_eq_or_imp, hx, Except.ok.injEq]

/-- All computations succeed, or there is one that does not. -/
theorem Except.mapM_succeeds_iff {ε α β : Type} {f : α → Except ε β} {xs : List α} :
    (∃ ys, xs.mapM f = .ok ys) ↔ ∀ x ∈ xs, ∃ y, f x = .ok y := by
  simp only [mapM_eq_ok]
  induction xs with
  | nil => simp
  | cons x xs ih =>
    rw [List.forall_mem_cons, ← ih]
    constructor
    · rintro ⟨_, _ | ⟨hy, hrest⟩⟩
      exact ⟨⟨_, hy⟩, _, hrest⟩
    · rintro ⟨⟨y, hy⟩, ys, hrest⟩
      exact ⟨y :: ys, .cons hy hrest⟩

namespace Harvest

open MergedClass

variable {filter : NameFilter} {inputs : List (List UInt8)} {t u : SymbolTable}

/-! ### By way of a table for each class -/

/-- A way of computing the tables of several classes at the same time. -/
abbrev Spread :=
  (List UInt8 → Except Error SymbolTable) → List (List UInt8) → List (Except Error SymbolTable)

/-- The tables of several classes, each on its own; from `threshold` classes on they are computed at
    the same time. -/
def tables (spread : Spread) (threshold : Nat) (filter : NameFilter) (inputs : List (List UInt8)) :
    List (Except Error SymbolTable) :=
  if threshold ≤ inputs.length then spread (ofClass filter) inputs
  else inputs.map (ofClass filter)

/-- Merges tables in their order; the first that there is not ends the merge. -/
def mergeTables (found : List (Except Error SymbolTable)) : SymbolTable.Update Unit :=
  found.forM fun one =>
    match one with
    | .ok table => SymbolTable.merge table
    | .error e => throw e

/-- The merged table of several classes, all of whose tables are computed first. -/
def ofTables (spread : Spread) (threshold : Nat) (filter : NameFilter)
    (inputs : List (List UInt8)) : Except Error SymbolTable :=
  outcome (mergeTables (tables spread threshold filter inputs)) .empty

theorem mergeTables_map (filter : NameFilter) : ∀ inputs : List (List UInt8),
    mergeTables (inputs.map (ofClass filter)) = mergeAll filter inputs
  | [] => rfl
  | bytes :: inputs => by
    have hrest := mergeTables_map filter inputs
    rw [List.map_cons]
    exact bind_congr fun _ => hrest

/-- Nothing depends on the threshold, nor on how the tables are computed at the same time. -/
theorem ofTables_eq {spread : Spread}
    (hspread : ∀ f inputs (i : Nat), (spread f inputs)[i]? = inputs[i]?.map f) (threshold : Nat)
    (filter : NameFilter) (inputs : List (List UInt8)) :
    ofTables spread threshold filter inputs = ofClasses filter inputs := by
  have hplaces : spread (ofClass filter) inputs = inputs.map (ofClass filter) := by
    refine List.ext_getElem? fun i => ?_
    rw [hspread, List.getElem?_map]
  rw [ofTables, tables, hplaces, ite_self, mergeTables_map, ofClasses]

/-- A merge of classes is a merge of their tables. -/
theorem mergeAll_eq_ok : ∀ {inputs : List (List UInt8)} {t u : SymbolTable},
    mergeAll filter inputs t = .ok () u ↔
      ∃ parts, inputs.mapM (ofClass filter) = .ok parts ∧
        SymbolTable.mergeEach parts t = .ok () u
  | [], t, u => by
    constructor
    · intro h
      exact ⟨[], rfl, h⟩
    · rintro ⟨_, ⟨⟩, h⟩
      exact h
  | bytes :: inputs, t, u => by
    rw [mergeAll_cons]
    constructor
    · rintro ⟨one, middle, hone, hjoins, hrest⟩
      obtain ⟨parts, hparts, hmerge⟩ := mergeAll_eq_ok.1 hrest
      refine ⟨one :: parts, ?_, SymbolTable.mergeEach_cons.2 ⟨middle, hjoins, hmerge⟩⟩
      rw [List.mapM_cons, hone, hparts]
      rfl
    · rintro ⟨parts, hparts, hmerge⟩
      rw [List.mapM_cons, Except.bind_eq_ok] at hparts
      obtain ⟨one, hone, hrest⟩ := hparts
      obtain ⟨parts, hparts, ⟨⟩⟩ := Except.bind_eq_ok.1 hrest
      obtain ⟨middle, hjoins, hmerge⟩ := SymbolTable.mergeEach_cons.1 hmerge
      exact ⟨one, middle, hone, hjoins, mergeAll_eq_ok.2 ⟨parts, hparts, hmerge⟩⟩

/-- Classes merge exactly if each of them has a table and every two tables agree. -/
theorem ofClasses_succeeds_iff : (∃ t, ofClasses filter inputs = .ok t) ↔
    ∃ parts, inputs.mapM (ofClass filter) = .ok parts ∧ SymbolTable.Consistent parts := by
  simp only [ofClasses_eq_ok, mergeAll_eq_ok]
  constructor
  · rintro ⟨t, parts, hparts, hmerge⟩
    have hall := (SymbolTable.mergeEach_succeeds_iff parts .empty).1 ⟨t, hmerge⟩
    exact ⟨parts, hparts, SymbolTable.consistent_empty_cons.1 hall⟩
  · rintro ⟨parts, hparts, hall⟩
    obtain ⟨t, ht⟩ := (SymbolTable.mergeEach_succeeds_iff parts .empty).2
      (SymbolTable.consistent_empty_cons.2 hall)
    exact ⟨t, parts, hparts, ht⟩

/-- What classes merge to is the union of their tables. -/
theorem isUnion_of_ofClasses (h : ofClasses filter inputs = .ok t) :
    ∃ parts, inputs.mapM (ofClass filter) = .ok parts ∧ SymbolTable.IsUnion parts t := by
  obtain ⟨parts, hparts, hmerge⟩ := mergeAll_eq_ok.1 (ofClasses_eq_ok.1 h)
  exact ⟨parts, hparts, SymbolTable.isUnion_empty_cons (SymbolTable.isUnion_of_mergeEach hmerge)⟩

/-! ### Lists of the same classes -/

variable {inputs' : List (List UInt8)}

/-- Whether classes merge depends only on which classes there are. -/
theorem ofClasses_succeeds_congr (h : ∀ bytes, bytes ∈ inputs' ↔ bytes ∈ inputs) :
    (∃ t, ofClasses filter inputs' = .ok t) ↔ ∃ t, ofClasses filter inputs = .ok t := by
  have hmembers : ∀ {inputs : List (List UInt8)}, (∃ t, ofClasses filter inputs = .ok t) ↔
      (∀ bytes ∈ inputs, ∃ p, ofClass filter bytes = .ok p) ∧
        ∀ p, (∃ bytes ∈ inputs, ofClass filter bytes = .ok p) →
          ∀ q, (∃ bytes ∈ inputs, ofClass filter bytes = .ok q) → p.Agrees q := by
    intro inputs
    rw [ofClasses_succeeds_iff, ← Except.mapM_succeeds_iff]
    constructor
    · rintro ⟨parts, hparts, hall⟩
      simp only [← Except.mem_of_mapM hparts]
      exact ⟨⟨parts, hparts⟩, hall⟩
    · rintro ⟨⟨parts, hparts⟩, hall⟩
      simp only [← Except.mem_of_mapM hparts] at hall
      exact ⟨parts, hparts, hall⟩
  rw [hmembers, hmembers]
  simp only [h]

/-- So do the values that they merge to. -/
theorem find?_congr (h : ∀ bytes, bytes ∈ inputs' ↔ bytes ∈ inputs)
    (ht : ofClasses filter inputs = .ok t) (hu : ofClasses filter inputs' = .ok u) (name : String) :
    u.scalar? name = t.scalar? name ∧ u.array? name = t.array? name := by
  obtain ⟨parts, hparts, ht⟩ := isUnion_of_ofClasses ht
  obtain ⟨parts', hparts', hu⟩ := isUnion_of_ofClasses hu
  have hsame : ∀ p, p ∈ parts' ↔ p ∈ parts := by
    intro p
    simp only [Except.mem_of_mapM hparts, Except.mem_of_mapM hparts', h]
  constructor
  · refine Option.ext fun value => ?_
    rw [SymbolTable.scalar?, SymbolTable.scalar?, hu.scalars.find?, ht.scalars.find?]
    simp only [Registry.Held, List.mem_map, exists_exists_and_eq_and, hsame]
  · refine Option.ext fun value => ?_
    rw [SymbolTable.array?, SymbolTable.array?, hu.arrays.find?, ht.arrays.find?]
    simp only [Registry.Held, List.mem_map, exists_exists_and_eq_and, hsame]

/-! ### Rejected classes -/

/-- Is the input a class file that the filter rejects? -/
def rejects (filter : NameFilter) (bytes : List UInt8) : Bool :=
  match ClassFile.ofBytes bytes with
  | .ok file => !filter.accepts (simpleName file.thisClass)
  | .error _ => false

theorem ofClass_of_rejects {bytes : List UInt8} (h : rejects filter bytes = true) :
    ofClass filter bytes = .ok .empty := by
  unfold rejects at h
  split at h
  · rename_i file hfile
    refine Except.bind_eq_ok.2 ⟨file, hfile, ?_⟩
    rw [if_neg (by simpa using h)]
    rfl
  · cases h

/-- A merge goes over a rejected class as if it was not there. -/
theorem mergeAll_filter (filter : NameFilter) : ∀ inputs : List (List UInt8),
    mergeAll filter (inputs.filter fun bytes => !rejects filter bytes) = mergeAll filter inputs
  | [] => rfl
  | bytes :: inputs => by
    have hrest := mergeAll_filter filter inputs
    rw [List.filter_cons]
    cases hrejects : rejects filter bytes with
    | false =>
      rw [mergeAll, mergeAll] at hrest ⊢
      simp only [Bool.not_false, if_true, List.forM, hrest]
    | true =>
      rw [Bool.not_true, if_neg Bool.false_ne_true, hrest]
      rw [mergeAll, mergeAll, List.forM, ofClass_of_rejects hrejects]
      rfl

theorem ofClasses_congr_of_rejects
    (h : (inputs'.filter fun bytes => !rejects filter bytes)
      = inputs.filter fun bytes => !rejects filter bytes) :
    ofClasses filter inputs' = ofClasses filter inputs := by
  rw [ofClasses, ofClasses, ← mergeAll_filter filter inputs', h, mergeAll_filter]

/-! ### The merge of classes -/

/-- Classes merge exactly if each of them has a table and every two tables agree, and then to the
    union of their tables. Another list of the same classes, reordered or with repetitions, merges
    if and only if this one does, and to the same values; a list that differs in classes that the
    filter rejects has the same outcome. How the tables are computed does not matter. -/
theorem ofTables_union {spread : Spread}
    (hspread : ∀ f inputs (i : Nat), (spread f inputs)[i]? = inputs[i]?.map f) (threshold : Nat)
    (filter : NameFilter) (inputs : List (List UInt8)) :
    ((∃ t, ofTables spread threshold filter inputs = .ok t) ↔
      ∃ parts, inputs.mapM (ofClass filter) = .ok parts ∧ ∀ p ∈ parts, ∀ q ∈ parts, p.Agrees q) ∧
    (∀ t, ofTables spread threshold filter inputs = .ok t →
      ∃ parts, inputs.mapM (ofClass filter) = .ok parts ∧ SymbolTable.IsUnion parts t) ∧
    (∀ threshold' inputs', (∀ bytes, bytes ∈ inputs' ↔ bytes ∈ inputs) →
      ((∃ u, ofTables spread threshold' filter inputs' = .ok u) ↔
        ∃ t, ofTables spread threshold filter inputs = .ok t) ∧
      ∀ t u, ofTables spread threshold filter inputs = .ok t →
        ofTables spread threshold' filter inputs' = .ok u →
        ∀ name, u.scalar? name = t.scalar? name ∧ u.array? name = t.array? name) ∧
    ∀ threshold' inputs', (inputs'.filter fun bytes => !rejects filter bytes)
        = (inputs.filter fun bytes => !rejects filter bytes) →
      ofTables spread threshold' filter inputs' = ofTables spread threshold filter inputs := by
  simp only [ofTables_eq hspread]
  refine ⟨ofClasses_succeeds_iff, fun t ht => isUnion_of_ofClasses ht, ?_, ?_⟩
  · intro _ inputs' hsame
    exact ⟨ofClasses_succeeds_congr hsame, fun t u ht hu => find?_congr hsame ht hu⟩
  · intro _ inputs' hsame
    exact ofClasses_congr_of_rejects hsame

/-- The first half of the tables and the second half at the same time. -/
def halves : Spread := fun f inputs =>
  (inputs.take (inputs.length / 2)).map f ++ (inputs.drop (inputs.length / 2)).map f

theorem getElem?_halves (f : List UInt8 → Except Error SymbolTable) (inputs : List (List UInt8))
    (i : Nat) : (halves f inputs)[i]? = inputs[i]?.map f := by
  rw [halves, ← List.map_append, List.take_append_drop, List.getElem?_map]

/-- A filter and three classes, the first of which it rejects. -/
def sampleUnion : Except Error (NameFilter × List UInt8 × List UInt8 × List UInt8) := do
  let filter ← NameFilter.ofGlob defaultName
  let foreign ← build ⟨⟨[("R$layout.y", 6)], by decide⟩, .empty⟩ ⟨"R$layout", 50⟩
  let first ← build ⟨⟨[("R$styleable.x", 0)], by decide⟩, ⟨[("a", [7])], by decide⟩⟩ defaultTarget
  let second ← build ⟨.empty, ⟨[("b", [70000]), ("a", [7])], by decide⟩⟩ defaultTarget
  return (filter, foreign, first, second)

theorem ofTables_union_sample :
    ∃ filter foreign first second t u, sampleUnion = .ok (filter, foreign, first, second) ∧
      ofTables halves 2 filter [first, second] = .ok t ∧
      t.arrays.entries = [("a", [7]), ("b", [70000])] ∧
      ofTables halves 9 filter [second, first, second] = .ok u ∧
      u.arrays.entries = [("b", [70000]), ("a", [7])] ∧ u.array? "b" = t.array? "b" ∧
      ofTables halves 2 filter [first, foreign, second, foreign] = .ok t := by
  have hsample : sampleUnion.toOption.any (fun sample =>
      rejects sample.1 sample.2.1 = true ∧
      (ofTables halves 2 sample.1 [sample.2.2.1, sample.2.2.2]).toOption.any (fun t =>
        t.arrays.entries = [("a", [7]), ("b", [70000])]) = true ∧
      (ofTables halves 9 sample.1 [sample.2.2.2, sample.2.2.1, sample.2.2.2]).toOption.any (fun u =>
        u.arrays.entries = [("b", [70000]), ("a", [7])]) = true) = true := by
    decide +kernel
  obtain ⟨⟨filter, foreign, first, second⟩, hclasses, htests⟩ := Except.exists_of_any hsample
  obtain ⟨hrejects, ht, hu⟩ := of_decide_eq_true htests
  obtain ⟨t, ht, htable⟩ := Except.exists_of_any ht
  obtain ⟨u, hu, hother⟩ := Except.exists_of_any hu
  obtain ⟨-, -, hsame, hrejected⟩ := ofTables_union getElem?_halves 2 filter [first, second]
  have hvalues := (hsame 9 [second, first, second] (by simp [or_comm])).2 t u ht hu "b"
  have hmore := hrejected 2 [first, foreign, second, foreign] (by simp [List.filter_cons, hrejects])
  exact ⟨filter, foreign, first, second, t, u, hclasses, ht, of_decide_eq_true htable, hu,
    of_decide_eq_true hother, hvalues.2, hmore.trans ht⟩

end Harvest

end ResourceMerge

import ResourceMerge.Proofs.Insertion
import ResourceMerge.Proofs.MergeLaws
import ResourceMerge.Proofs.MergedUnion
import ResourceMerge.Proofs.Script

/-! One shared table in the place of a table for each class. What a class does to a table does not
    depend on the table, except that the table may refuse an entry. So a replay into a table that
    holds something ends as a merge with the table that the replay makes of nothing, in the same
    table or in the same conflict; and the classes may as well contribute to one table, one after
    the other, as to a table each that are merged afterwards. -/

namespace ResourceMerge.Harvest

open SymbolTable

variable {filter : NameFilter} {inputs : List (List UInt8)} {bytes : List UInt8}
  {t u p : SymbolTable}

/-! ### Replays -/

/-- A replay offers arrays and no scalars. -/
theorem replay_eq_insertThen (insns : List Instruction) :
    ∃ arrays ending, replay insns = insertThen [] arrays ending := by
  rw [replay_eq]
  obtain ⟨offers, fault?⟩ := Initializer.scriptOf insns
  cases fault? with
  | none => exact ⟨offers, .ok (0 + offers.length), rfl⟩
  | some e => exact ⟨offers, .error e, rfl⟩

theorem replay_offering (insns : List Instruction) : Offering (replay insns) :=
  ⟨[], replay_eq_insertThen insns⟩

theorem scalars_of_replay {insns : List Instruction} {n : Nat} (h : replay insns t = .ok n u) :
    u.scalars = t.scalars := by
  obtain ⟨arrays, ending, hreplay⟩ := replay_eq_insertThen insns
  rw [hreplay] at h
  obtain ⟨_, middle, hoffers, hending⟩ := bind_eq_ok.1 h
  cases ending with
  | error e => cases hending
  | ok n =>
    cases hending
    exact scalars_of_forM hoffers

/-- A merge with the table of a replay fails with a conflict of arrays. -/
theorem conflict_of_merge {insns : List Instruction} {n : Nat} {e : Error}
    (h : replay insns .empty = .ok n p) (hmerge : merge p t = .error e u) :
    ∃ name held offered, e = .conflict name (.array held) (.array offered) := by
  cases merge_fails_iff.1 ⟨u, hmerge⟩ with
  | scalar first =>
    -- a replay leaves no scalar behind that could be the first to differ
    obtain ⟨before, behind, hentries, -⟩ := first.place
    rw [scalars_of_replay h] at hentries
    exact absurd hentries.symm (by simp [SymbolTable.empty, Registry.empty])
  | array _ first => exact ⟨_, _, _, rfl⟩

/-! ### Classes -/

theorem insertConstants_eq (simple : String) : ∀ fields : List Field,
    insertConstants simple fields
      = (constants simple fields).forM fun entry => insertScalar entry.1 entry.2
  | [] => rfl
  | field :: fields => by
    have hrest := insertConstants_eq simple fields
    rw [insertConstants] at hrest ⊢
    rw [List.forM, hrest]
    cases hconstant : field.intConstant with
    | none =>
      have hskip : constants simple (field :: fields) = constants simple fields := by
        simp [constants, hconstant]
      rw [hskip]
      rfl
    | some value =>
      have hcons : constants simple (field :: fields)
          = (qualified simple field.name, value) :: constants simple fields := by
        simp [constants, hconstant]
      rw [hcons]
      rfl

/-- What the initialiser of a class contributes. -/
def contributeArrays (file : ClassFile) : Update Unit :=
  match file.initializer? with
  | none => pure ()
  | some method =>
    match file.instructions method with
    | .error e => throw e
    | .ok insns => do let _ ← replay insns

theorem contributeArrays_eq (file : ClassFile) :
    ∃ arrays ending, contributeArrays file = insertThen [] arrays ending := by
  unfold contributeArrays
  split
  · exact ⟨[], .ok (), rfl⟩
  split
  · exact ⟨[], .error _, rfl⟩
  · rename_i insns _
    obtain ⟨arrays, ending, hreplay⟩ := replay_eq_insertThen insns
    refine ⟨arrays, ending.map fun _ => (), ?_⟩
    rw [hreplay]
    unfold insertThen
    rw [bind_assoc]
    cases ending <;> rfl

theorem contribute_offering (file : ClassFile) : Offering (contribute file) := by
  have hparts : contribute file = (do
      insertConstants (simpleName file.thisClass) file.fields
      contributeArrays file) := rfl
  obtain ⟨arrays, ending, harrays⟩ := contributeArrays_eq file
  refine ⟨constants (simpleName file.thisClass) file.fields, arrays, ending, ?_⟩
  rw [hparts, harrays, insertConstants_eq]
  unfold insertThen insertBoth
  rw [bind_assoc, bind_assoc]
  rfl

/-- Offers to a shared table all that a class contributes, if the filter accepts it. -/
def share (filter : NameFilter) (bytes : List UInt8) : Update Unit :=
  match ClassFile.ofBytes bytes with
  | .error e => throw e
  | .ok file =>
    if filter.accepts (simpleName file.thisClass) then contribute file else pure ()

/-- Lets classes contribute to one shared table, one after the other. -/
def shareAll (filter : NameFilter) (inputs : List (List UInt8)) : Update Unit :=
  inputs.forM (share filter)

theorem share_offering (filter : NameFilter) (bytes : List UInt8) :
    Offering (share filter bytes) := by
  unfold share
  split
  · exact ⟨[], [], .error _, rfl⟩
  · split
    · exact contribute_offering _
    · exact ⟨[], [], .ok (), rfl⟩

/-- The table of a class is what the class makes of the empty table. -/
theorem ofClass_eq (filter : NameFilter) (bytes : List UInt8) :
    ofClass filter bytes = outcome (share filter bytes) .empty := by
  rw [ofClass, share]
  cases ClassFile.ofBytes bytes with
  | error e => rfl
  | ok file =>
    simp only [Bind.bind, Except.bind]
    split <;> rfl

/-- One class: its contribution to a table succeeds exactly as a merge with its own table does. -/
theorem share_eq_ok : share filter bytes t = .ok () u ↔
    ∃ p, ofClass filter bytes = .ok p ∧ merge p t = .ok () u := by
  have hoffering := share_offering filter bytes
  rw [ofClass_eq, outcome]
  cases hempty : share filter bytes .empty with
  | error e p =>
    obtain ⟨e', u', hfails⟩ := hoffering.fails hempty t
    simp [hfails]
  | ok _ p =>
    rw [hoffering.eq_merge hempty t]
    cases hmerge : merge p t <;> simp [hmerge]

/-- All classes. -/
theorem shareAll_eq_ok : ∀ {inputs : List (List UInt8)} {t : SymbolTable},
    shareAll filter inputs t = .ok () u ↔ mergeAll filter inputs t = .ok () u
  | [], _ => .rfl
  | bytes :: inputs, t => by
    rw [mergeAll_cons, shareAll, List.forM, bind_eq_ok]
    constructor
    · rintro ⟨_, middle, hfirst, hrest⟩
      obtain ⟨p, hp, hmerge⟩ := share_eq_ok.1 hfirst
      exact ⟨p, middle, hp, merge_eq_ok.1 hmerge, shareAll_eq_ok.1 hrest⟩
    · rintro ⟨p, middle, hp, hjoins, hrest⟩
      exact ⟨(), middle, share_eq_ok.2 ⟨p, hp, merge_eq_ok.2 hjoins⟩, shareAll_eq_ok.2 hrest⟩

/-! ### One table for all -/

/-- A replay into a table that holds something ends as the merge with the table that the replay
    makes of nothing: well, with as many arrays and the same table, or in the same conflict with
    the same table left behind. If the replay does not end well by itself, it does not end well
    there. So classes have a merged table exactly if all of them, one after the other, succeed in
    contributing to one table, and the two tables are the same. -/
theorem ofTables_shared {spread : Spread}
    (hspread : ∀ f inputs (i : Nat), (spread f inputs)[i]? = inputs[i]?.map f) (threshold : Nat)
    (filter : NameFilter) :
    (∀ insns n p, replay insns .empty = .ok n p → ∀ t,
      match merge p t with
      | .ok _ u => replay insns t = .ok n u
      | .error e u => replay insns t = .error e u ∧
        ∃ name held offered, e = .conflict name (.array held) (.array offered)) ∧
    (∀ insns e p, replay insns .empty = .error e p → ∀ t, ∃ e' u, replay insns t = .error e' u) ∧
    ∀ inputs u, ofTables spread threshold filter inputs = .ok u ↔
      shareAll filter inputs .empty = .ok () u := by
  refine ⟨fun insns n p h t => ?_, fun insns e p h => (replay_offering insns).fails h,
    fun inputs u => ?_⟩
  · have hshared := (replay_offering insns).eq_merge h t
    cases hmerge : merge p t with
    | ok _ u => rwa [hmerge] at hshared
    | error e u =>
      rw [hmerge] at hshared
      exact ⟨hshared, conflict_of_merge h hmerge⟩
  · rw [ofTables_eq hspread, ofClasses_eq_ok, shareAll_eq_ok]

/-- A stream that makes two arrays, and one that goes on to make two arrays at a time. -/
def sampleStreams : List Instruction × List Instruction :=
  let code := MergedClass.initializer
    ⟨.empty, ⟨[("a", [7]), ("b", [70000])], by decide⟩⟩ "R$styleable"
  (code, code.dropLast ++ [.pushSmall 1, .newIntArray, .pushSmall 1, .newIntArray])

/-- A table that holds another array under one of the two names. -/
def sampleHeld : SymbolTable := ⟨.empty, ⟨[("b", [9])], by decide⟩⟩

theorem ofTables_shared_sample :
    replay sampleStreams.1 sampleHeld = .error (.conflict "b" (.array [9]) (.array [70000]))
        ⟨.empty, ⟨[("b", [9]), ("a", [7])], by decide⟩⟩ ∧
      (∃ e u, replay sampleStreams.2 sampleHeld = .error e u) ∧
      ∃ filter foreign first second t, sampleUnion = .ok (filter, foreign, first, second) ∧
        ofTables halves 2 filter [first, foreign, second] = .ok t ∧
        shareAll filter [first, foreign, second] .empty = .ok () t := by
  have hwell : endsIn (fun _ p => p = ⟨.empty, ⟨[("a", [7]), ("b", [70000])], by decide⟩⟩)
      (replay sampleStreams.1 .empty) = true := by
    decide +kernel
  have hill : endsIn (fun _ _ => true) (replay sampleStreams.2 .empty) = false := by
    decide +kernel
  have hclasses : sampleUnion.toOption.any (fun sample =>
      (ofTables halves 2 sample.1 [sample.2.2.1, sample.2.1, sample.2.2.2]).toOption.any
        fun _ => true) = true := by
    decide +kernel
  obtain ⟨⟨filter, foreign, first, second⟩, hsample, hmerged⟩ := Except.exists_of_any hclasses
  obtain ⟨t, ht, -⟩ := Except.exists_of_any hmerged
  obtain ⟨n, p, hp, htable⟩ := exists_of_endsIn hwell
  cases of_decide_eq_true htable
  obtain ⟨e, q, hq⟩ := exists_of_not_endsIn hill
  obtain ⟨hok, herror, hshared⟩ := ofTables_shared getElem?_halves 2 filter
  exact ⟨(hok _ n _ hp sampleHeld).1, herror _ e q hq sampleHeld,
    filter, foreign, first, second, t, hsample, ht, (hshared _ t).1 ht⟩

end ResourceMerge.Harvest

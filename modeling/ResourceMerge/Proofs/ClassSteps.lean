import ResourceMerge.Proofs.ClassOutline

/-! The steps that build a class. Each of them asks the pool for the slots it needs before it adds its
    member, so a step that fails has at most enlarged the pool and the class stands for what it
    stood for; a step that succeeds has added exactly the member it was asked for. -/

namespace ResourceMerge.ClassDraft

variable {draft : ClassDraft} {outline : Outline}

/-- A request to the pool of a class leaves everything else alone. -/
theorem onPool_ends {α : Type} {request : PoolDraft.Request α} {draft : ClassDraft}
    {good : α → PoolDraft → Prop} {bad : Error → PoolDraft → Prop}
    (h : Ends request draft.pool good bad) :
    Ends (onPool request) draft
      (fun a later => ∃ pool, later = { draft with pool := pool } ∧ good a pool)
      (fun e later => ∃ pool, later = { draft with pool := pool } ∧ bad e pool) := by
  unfold Ends at h ⊢
  unfold onPool
  cases hr : request draft.pool with
  | ok a pool =>
    rw [hr] at h
    simpa [hr] using h
  | error e pool =>
    rw [hr] at h
    simpa [hr] using h

/-- A request that fails leaves a class that stands for the same. -/
theorem Stands.of_failed (h : draft.Stands outline) {later : ClassDraft}
    (hlater : ∃ pool, later = { draft with pool := pool } ∧ draft.pool.Grows pool) :
    later.Stands outline := by
  obtain ⟨pool, rfl, hgrows⟩ := hlater
  exact h.withPool hgrows

/-- The constant of a field gets its slot, and its attribute a label. -/
theorem constantSlot_ends (h : draft.Stands outline) (constant : Option Int32) :
    Ends (constantSlot constant) draft
      (fun slot later => later.Stands outline ∧ draft.pool.Grows later.pool ∧
        Option.Rel (fun i v => later.pool.frozen.integer? i = .ok (some v)) slot constant ∧
        (slot.isSome → later.constantValueAttribute.isSome))
      (fun _ later => later.Stands outline) := by
  cases constant with
  | none => exact .pure ⟨h, .refl _, .none, nofun⟩
  | some v =>
    refine (onPool_ends (PoolDraft.utf8_ends _ draft.pool)).andThen ?_ fun _ _ => h.of_failed
    rintro label _ ⟨first, rfl, hfirst, hlabel⟩
    refine .bind (.modify ?_)
    have hlabelled := (h.withPool hfirst).withConstantLabel hlabel
    refine (onPool_ends (PoolDraft.integer_ends v first)).andThen ?_
      fun _ _ => hlabelled.of_failed
    rintro i _ ⟨second, rfl, hsecond, hi⟩
    exact .pure ⟨hlabelled.withPool hsecond, hfirst.trans hsecond, .some hi, fun _ => rfl⟩

theorem addField_ends (h : draft.Stands outline) (access : Access) (name descriptor : String)
    (constant : Option Int32) :
    Ends (addField access name descriptor constant) draft
      (fun _ later => later.Stands (outline.withField ⟨access, name, descriptor, constant⟩))
      (fun _ later => later.Stands outline) := by
  refine (onPool_ends (PoolDraft.utf8_ends name draft.pool)).andThen ?_ fun _ _ => h.of_failed
  rintro n _ ⟨first, rfl, hfirst, hname⟩
  have h1 := h.withPool hfirst
  refine (onPool_ends (PoolDraft.utf8_ends descriptor first)).andThen ?_ fun _ _ => h1.of_failed
  rintro d _ ⟨second, rfl, hsecond, hdescriptor⟩
  have h2 := h1.withPool hsecond
  refine (constantSlot_ends h2 constant).andThen ?_ fun _ _ h => h
  rintro slot later ⟨hlater, hthird, hslot, hlabelled⟩
  refine .modify (hlater.pushField ⟨rfl, ?_, hthird.within.utf8 hdescriptor, hslot, hlabelled⟩)
  exact (hsecond.trans hthird).within.utf8 hname

theorem addBody_ends (h : draft.Stands outline) (access : Access) (name descriptor : String)
    (body : Body) :
    Ends (addBody access name descriptor body) draft
      (fun _ later => draft.pool.Grows later.pool ∧
        later.Stands (outline.withMethod ⟨access, name, descriptor, some body⟩))
      (fun _ later => later.Stands outline) := by
  refine (onPool_ends (PoolDraft.utf8_ends name draft.pool)).andThen ?_ fun _ _ => h.of_failed
  rintro n _ ⟨first, rfl, hfirst, hname⟩
  have h1 := h.withPool hfirst
  refine (onPool_ends (PoolDraft.utf8_ends descriptor first)).andThen ?_ fun _ _ => h1.of_failed
  rintro d _ ⟨second, rfl, hsecond, hdescriptor⟩
  have h2 := h1.withPool hsecond
  refine (onPool_ends (PoolDraft.utf8_ends _ second)).andThen ?_ fun _ _ => h2.of_failed
  rintro label _ ⟨third, rfl, hthird, hlabel⟩
  refine .bind (.modify ?_)
  have h3 := (h2.withPool hthird).withCodeLabel hlabel
  split
  · exact .bind (.throw h3)
  · rename_i hfits
    refine .modify ⟨(hfirst.trans hsecond).trans hthird, h3.pushMethod
      ⟨rfl, ?_, hthird.within.utf8 hdescriptor, rfl, Nat.le_of_not_lt hfits, rfl⟩⟩
    exact (hsecond.trans hthird).within.utf8 hname

/-- A method given by its instructions has the body that they are encoded as. -/
theorem addMethod_ends (h : draft.Stands outline) (access : Access) (name descriptor : String)
    (insns : List Instruction) (maxLocals : UInt16) :
    Ends (addMethod access name descriptor insns maxLocals) draft
      (fun _ later => ∃ maxStack code pool, Instruction.maxStack insns = .ok maxStack ∧
        MethodBody.encode insns draft.pool = .ok code pool ∧ pool.Grows later.pool ∧
        later.Stands
          (outline.withMethod ⟨access, name, descriptor, some ⟨maxStack, maxLocals, code⟩⟩))
      (fun _ later => later.Stands outline) := by
  unfold addMethod
  cases hmax : Instruction.maxStack insns with
  | error e => exact .throw h
  | ok maxStack =>
    have hencode := (MethodBody.encode_ends insns draft.pool).withRun
    refine (onPool_ends hencode).andThen ?_ ?_
    rotate_left
    · rintro e _ ⟨pool, rfl, hgrows, -⟩
      exact h.withPool hgrows
    rintro code _ ⟨pool, rfl, ⟨hgrows, -⟩, hcode⟩
    refine (addBody_ends (h.withPool hgrows) access name descriptor _).mono ?_ fun _ _ h => h
    rintro _ later ⟨hlater, hstands⟩
    exact ⟨maxStack, code, pool, rfl, hcode, hlater, hstands⟩

/-- A class without members stands for its two names. -/
theorem start_stands {name superName : String} {access : Access} {version : UInt16}
    (h : start name superName access version = .ok draft) :
    draft.Stands ⟨name, superName, access, version, [], []⟩ := by
  simp only [start] at h
  split at h
  · rename_i this super pool hnames
    obtain ⟨_, first, hthis, hrest⟩ := bind_eq_ok.1 hnames
    obtain ⟨_, second, hsuper, hanswer⟩ := bind_eq_ok.1 hrest
    cases hanswer
    cases h
    obtain ⟨hfirst, hname⟩ := (PoolDraft.classRef_ends name .empty).of_ok hthis
    obtain ⟨hsecond, hsuperName⟩ := (PoolDraft.classRef_ends superName first).of_ok hsuper
    exact
      { writable := (hfirst.trans hsecond).writable (by simp [PoolDraft.empty])
        version := rfl
        access := rfl
        thisClass := hsecond.within.className hname
        superClass := hsuperName
        constantLabel := nofun
        codeLabel := nofun
        fields := .nil
        methods := .nil }
  · cases h

end ResourceMerge.ClassDraft

/-! Where a computation with a state ends. Such a computation keeps its state also when it fails, so
    what is to be said of it has two halves: one about the result and the state of a success, one
    about the error and the state of a failure. A statement of this form about each operation is
    all that its callers use. -/

namespace ResourceMerge

variable {ε σ α β : Type}

/-- Success ends in a `good` result and state, failure in a `bad` error and state. -/
def Ends (x : EStateM ε σ α) (s : σ) (good : α → σ → Prop) (bad : ε → σ → Prop) : Prop :=
  match x s with
  | .ok a t => good a t
  | .error e t => bad e t

namespace Ends

variable {x : EStateM ε σ α} {f : α → EStateM ε σ β} {s t : σ} {a : α} {e : ε}
  {good good' : α → σ → Prop} {bad bad' : ε → σ → Prop}

theorem of_ok (h : Ends x s good bad) (hx : x s = .ok a t) : good a t := by
  simpa [Ends, hx] using h

theorem of_error (h : Ends x s good bad) (hx : x s = .error e t) : bad e t := by
  simpa [Ends, hx] using h

theorem mono (h : Ends x s good bad) (hgood : ∀ a t, good a t → good' a t)
    (hbad : ∀ e t, bad e t → bad' e t) : Ends x s good' bad' := by
  unfold Ends at h ⊢
  split
  · rename_i hx
    rw [hx] at h
    exact hgood _ _ h
  · rename_i hx
    rw [hx] at h
    exact hbad _ _ h

/-- What is known of the ending, together with the run that led there. -/
theorem withRun (h : Ends x s good bad) :
    Ends x s (fun a t => good a t ∧ x s = .ok a t) (fun e t => bad e t ∧ x s = .error e t) := by
  unfold Ends at h ⊢
  cases hx : x s with
  | ok a t =>
    rw [hx] at h
    exact ⟨h, rfl⟩
  | error e t =>
    rw [hx] at h
    exact ⟨h, rfl⟩

theorem pure (h : good a s) : Ends (pure a : EStateM ε σ α) s good bad := h

theorem throw (h : bad e s) : Ends (throw e : EStateM ε σ α) s good bad := h

theorem modify {g : σ → σ} {good : PUnit → σ → Prop} (h : good ⟨⟩ (g s)) :
    Ends (modify g : EStateM ε σ PUnit) s good bad := h

/-- The second part starts where the first one succeeded. -/
theorem bind {good : β → σ → Prop} (h : Ends x s (fun a t => Ends (f a) t good bad) bad) :
    Ends (x >>= f) s good bad := by
  simp only [Ends, Bind.bind, EStateM.bind] at h ⊢
  cases hx : x s with
  | ok a t =>
    rw [hx] at h
    exact h
  | error e t =>
    rw [hx] at h
    exact h

/-- What the first part ends with is known, and the second part goes on from there. -/
theorem andThen {good' : β → σ → Prop} (h : Ends x s good bad)
    (hf : ∀ a t, good a t → Ends (f a) t good' bad') (hbad : ∀ e t, bad e t → bad' e t) :
    Ends (x >>= f) s good' bad' :=
  bind (h.mono hf hbad)

end Ends

/-- A sequence that succeeds is one success after the other. -/
theorem bind_eq_ok {x : EStateM ε σ α} {f : α → EStateM ε σ β} {s u : σ} {b : β} :
    (x >>= f) s = .ok b u ↔ ∃ a t, x s = .ok a t ∧ f a t = .ok b u := by
  simp only [Bind.bind, EStateM.bind]
  cases x s with
  | ok a t =>
    constructor
    · exact fun h => ⟨a, t, rfl, h⟩
    · rintro ⟨_, _, h, hf⟩
      cases h
      exact hf
  | error e t => simp

/-- A sequence that fails fails in its first part, or behind the success of it. -/
theorem bind_eq_error {x : EStateM ε σ α} {f : α → EStateM ε σ β} {s u : σ} {e : ε} :
    (x >>= f) s = .error e u ↔ x s = .error e u ∨ ∃ a t, x s = .ok a t ∧ f a t = .error e u := by
  simp only [Bind.bind, EStateM.bind]
  cases x s with
  | ok a t =>
    constructor
    · exact fun h => .inr ⟨a, t, rfl, h⟩
    · rintro (h | ⟨_, _, h, hf⟩)
      · cases h
      · cases h
        exact hf
  | error e' t => simp

/-- Success is the same for computations without a state. -/
theorem Except.bind_eq_ok {x : Except ε α} {f : α → Except ε β} {b : β} :
    (x >>= f) = .ok b ↔ ∃ a, x = .ok a ∧ f a = .ok b := by
  cases x with
  | ok a =>
    constructor
    · exact fun h => ⟨a, rfl, h⟩
    · rintro ⟨_, h, hf⟩
      cases h
      exact hf
  | error e => simp [Bind.bind, Except.bind]

/-- Does a run succeed with a result and a state that pass the test? -/
def endsIn (test : α → σ → Bool) : EStateM.Result ε σ α → Bool
  | .ok a t => test a t
  | .error _ _ => false

theorem exists_of_endsIn {r : EStateM.Result ε σ α} {test : α → σ → Bool}
    (h : endsIn test r = true) : ∃ a t, r = .ok a t ∧ test a t = true := by
  cases r with
  | ok a t => exact ⟨a, t, rfl, h⟩
  | error e t => cases h

theorem exists_of_not_endsIn {r : EStateM.Result ε σ α} (h : endsIn (fun _ _ => true) r = false) :
    ∃ e t, r = .error e t := by
  cases r with
  | ok a t => cases h
  | error e t => exact ⟨e, t, rfl⟩

/-- A test that a result passes says that there is a result. -/
theorem Except.exists_of_any {x : Except ε α} {p : α → Bool} (h : x.toOption.any p = true) :
    ∃ a, x = .ok a ∧ p a = true := by
  cases x with
  | ok a => exact ⟨a, rfl, h⟩
  | error e => cases h

end ResourceMerge

import ResourceMerge.Proofs.Acceptance

/-! Byte strings that are cut off. A framed reader takes its own bytes, whatever follows them. It is
    delimited if it also needs all of them: before a proper beginning of its bytes it runs out, and
    ends in no other way. A cut through the bytes of two readers in sequence leaves the first one
    too little, or leaves it all its bytes and the second one too little; so it is enough to look at
    the one reader that asks for bytes. -/

namespace ResourceMerge.Binary

variable {α β : Type} {pc : Nat} {bytes : List UInt8} {a : α}

/-- Before these bytes `r` asks for more than there is. -/
def RunsOut (r : Reader α) (pc : Nat) (bytes : List UInt8) : Prop :=
  ∃ needed offset c, r ⟨bytes, pc⟩ = .error (.endOfInput needed offset) c

/-- `r` takes its own bytes, whatever follows them, and runs out before less of them. -/
structure Delimited (r : Reader α) : Prop where
  framed : Framed r
  runsOut : ∀ pc bytes a, Accepts r pc bytes a → ∀ cut, cut <+: bytes → cut.length < bytes.length →
    RunsOut r pc cut

/-- What runs out at first runs out. -/
theorem RunsOut.bind {r : Reader α} (h : RunsOut r pc bytes) (f : α → Reader β) :
    RunsOut (r >>= f) pc bytes := by
  obtain ⟨needed, offset, c, hrun⟩ := h
  refine ⟨needed, offset, c, ?_⟩
  simp only [Bind.bind, EStateM.bind, hrun]

/-- What runs out behind the bytes of the first reader runs out. -/
theorem RunsOut.behind {r : Reader α} {f : α → Reader β} {front cut : List UInt8}
    (hfront : Accepts r pc front a) (h : RunsOut (f a) (pc + front.length) cut) :
    RunsOut (r >>= f) pc (front ++ cut) := by
  obtain ⟨needed, offset, c, hrun⟩ := h
  refine ⟨needed, offset, c, ?_⟩
  simp only [Bind.bind, EStateM.bind, hfront cut, hrun]

/-! ### Delimited readers -/

namespace Delimited

theorem pure (a : α) : Delimited (pure a) where
  framed := .pure a
  runsOut := by
    intro pc bytes b h cut _ hlength
    rw [(accepts_pure.1 h).1] at hlength
    exact absurd hlength (Nat.not_lt_zero _)

theorem fail (e : Error) : Delimited (Reader.fail e : Reader α) where
  framed := .fail e
  runsOut := fun _ _ _ h => absurd h not_accepts_fail

theorem ofExcept (x : Except Error α) : Delimited (Reader.ofExcept x) := by
  cases x with
  | ok a => exact pure a
  | error e => exact fail e

theorem take (n : Nat) : Delimited (Reader.take n) where
  framed := .take n
  runsOut := by
    intro pc bytes a h cut _ hlength
    rw [(accepts_take.1 h).1] at hlength
    exact ⟨n, pc, _, Reader.take_of_lt hlength⟩

theorem bind {r : Reader α} {f : α → Reader β} (hr : Delimited r) (hf : ∀ a, Delimited (f a)) :
    Delimited (r >>= f) where
  framed := hr.framed.bind fun a => (hf a).framed
  runsOut := by
    intro pc bytes b h cut hcut hlength
    obtain ⟨front, back, a, rfl, hfront, hback⟩ := (accepts_bind hr.framed).1 h
    rcases Nat.lt_or_ge cut.length front.length with hshort | hlong
    · have hinside : cut <+: front :=
        List.prefix_of_prefix_length_le hcut (List.prefix_append front back) (Nat.le_of_lt hshort)
      exact (hr.runsOut pc front a hfront cut hinside hshort).bind f
    · obtain ⟨rest, rfl⟩ :=
        List.prefix_of_prefix_length_le (List.prefix_append front back) hcut hlong
      have hrest : rest <+: back := (List.prefix_append_right_inj front).1 hcut
      rw [List.length_append, List.length_append] at hlength
      exact .behind hfront ((hf a).runsOut _ back b hback rest hrest (by omega))

theorem map {r : Reader α} (hr : Delimited r) (g : α → β) :
    Delimited (r >>= fun a => Pure.pure (g a)) :=
  hr.bind fun a => pure (g a)

theorem ite {p : Prop} [Decidable p] {r r' : Reader α} (h : Delimited r) (h' : Delimited r') :
    Delimited (if p then r else r') := by
  by_cases hp : p
  · rwa [if_pos hp]
  · rwa [if_neg hp]

/-- A reader behind a check that ends in an error. -/
theorem guard {p : Prop} [Decidable p] {e : Error} {r : Reader α} (h : Delimited r) :
    Delimited (if p then (Reader.fail e : Reader Unit) >>= fun _ => r else r) :=
  ((fail e).bind fun _ => h).ite h

theorem skip (n : Nat) : Delimited (Reader.skip n) := (take n).map fun _ => ()

theorem u8 : Delimited Reader.u8 := (take 1).map _

theorem u16 : Delimited Reader.u16 := (take 2).map _

theorem u32 : Delimited Reader.u32 := (take 4).map _

theorem i32 : Delimited Reader.i32 := u32.map _

theorem u64 : Delimited Reader.u64 := (take 8).map _

theorem repeatOnto {r : Reader α} (h : Delimited r) :
    ∀ (n : Nat) (done : List α), Delimited (Reader.repeatOnto r done n)
  | 0, done => pure done.reverse
  | n + 1, done => h.bind fun a => h.repeatOnto n (a :: done)

theorem times {r : Reader α} (h : Delimited r) (n : Nat) : Delimited (Reader.times n r) :=
  h.repeatOnto n []

end Delimited

/-! ### What is read of a byte string -/

/-- `r` reads the first `k` bytes of a byte string: no other byte matters, and none of these can be
    missing. -/
structure Takes (r : Reader α) (bytes : List UInt8) (k : Nat) (a : α) : Prop where
  enough : ∀ other, other.take k = bytes.take k → r.read other = .ok a
  needed : ∀ n < k, ∃ needed offset, r.read (bytes.take n) = .error (.endOfInput needed offset)

namespace Delimited

variable {r : Reader α}

/-- A delimited reader takes the bytes that it accepts at the start. -/
theorem takes (h : Delimited r) (haccepts : Accepts r 0 bytes a) (rest : List UInt8) :
    Takes r (bytes ++ rest) bytes.length a where
  enough := by
    intro other hother
    rw [List.take_left] at hother
    have hsplit := List.take_append_drop bytes.length other
    rw [hother] at hsplit
    rw [← hsplit, Reader.read, Cursor.start, haccepts]
  needed := by
    intro n hn
    have hlength : (bytes.take n).length < bytes.length := by
      rw [List.length_take]
      omega
    obtain ⟨needed, offset, c, hrun⟩ :=
      h.runsOut 0 bytes a haccepts _ (List.take_prefix n bytes) hlength
    refine ⟨needed, offset, ?_⟩
    rw [List.take_append_of_le_length (Nat.le_of_lt hn), Reader.read, Cursor.start, hrun]

theorem exists_takes (h : Delimited r) (hread : r.read bytes = .ok a) :
    ∃ k ≤ bytes.length, Takes r bytes k a := by
  rw [Reader.read] at hread
  cases hrun : r (.start bytes) with
  | error e c => simp [hrun] at hread
  | ok b c =>
    rw [hrun] at hread
    cases hread
    obtain ⟨front, hfront, -, haccepts⟩ := h.framed _ _ c hrun
    have hbytes : bytes = front ++ c.rest := hfront
    refine ⟨front.length, by simp [hbytes], ?_⟩
    rw [hbytes]
    exact h.takes haccepts c.rest

end Delimited

end ResourceMerge.Binary

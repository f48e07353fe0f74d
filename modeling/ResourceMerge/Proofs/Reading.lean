import Mathlib.Data.List.Forall2
import ResourceMerge.Binary.Cursor

/-! Readers against the bytes that were written for them. A reader `Reads` some bytes as a value if,
    wherever these bytes stand and whatever follows them, it answers that value and stops right
    behind them. Readers in sequence read bytes in sequence, so a form of any size is read by going
    through its parts. -/

namespace ResourceMerge.Binary

variable {α β : Type}

/-- `r` takes exactly `bytes`, whatever follows, and answers `a`. -/
def Reads (r : Reader α) (bytes : List UInt8) (a : α) : Prop :=
  ∀ (rest : List UInt8) (offset : Nat),
    r ⟨bytes ++ rest, offset⟩ = .ok a ⟨rest, offset + bytes.length⟩

namespace Reads

theorem pure (a : α) : Reads (pure a) [] a := fun _ _ => rfl

theorem bind {r : Reader α} {f : α → Reader β} {xs ys : List UInt8} {a : α} {b : β}
    (hr : Reads r xs a) (hf : Reads (f a) ys b) : Reads (r >>= f) (xs ++ ys) b := by
  intro rest offset
  have h := hr (ys ++ rest) offset
  rw [← List.append_assoc] at h
  simp only [Bind.bind, EStateM.bind, h]
  rw [hf rest, List.length_append, Nat.add_assoc]

/-- A result is put into its final shape. -/
theorem map {r : Reader α} {xs : List UInt8} {a : α} (hr : Reads r xs a) (g : α → β) :
    Reads (r >>= fun a => Pure.pure (g a)) xs (g a) := by
  have h := hr.bind (f := fun a => Pure.pure (g a)) (pure (g a))
  rwa [List.append_nil] at h

theorem ofExcept {x : Except Error α} {a : α} (h : x = .ok a) : Reads (Reader.ofExcept x) [] a := by
  subst h
  exact pure a

/-- A reader that looks where it stands, but does not depend on it. -/
theorem anywhere {f : Cursor → Reader α} {bytes : List UInt8} {a : α}
    (h : ∀ c, Reads (f c) bytes a) : Reads (get >>= f) bytes a :=
  fun rest offset => h _ rest offset

theorem take (bytes : List UInt8) : Reads (Reader.take bytes.length) bytes bytes := by
  intro rest offset
  rw [Reader.take_of_le (by simp)]
  simp

theorem skip (bytes : List UInt8) : Reads (Reader.skip bytes.length) bytes () :=
  (take bytes).map fun _ => ()

/-- A word is made of the number that its bytes are. -/
theorem word {n : Nat} {bytes : List UInt8} {v : α} (ofNat : Nat → α) (hlength : bytes.length = n)
    (hnumber : ofNat (number bytes) = v) :
    Reads (do return ofNat (number (← Reader.take n))) bytes v := by
  subst hlength
  have h := (take bytes).map fun taken => ofNat (number taken)
  rwa [hnumber] at h

theorem u8 (b : UInt8) : Reads Reader.u8 [b] b :=
  word UInt8.ofNat rfl (by simp [number])

theorem u16 (v : UInt16) : Reads Reader.u16 (Binary.u16 v) v :=
  word UInt16.ofNat rfl (by rw [number_u16, UInt16.ofNat_toNat])

theorem u32 (v : UInt32) : Reads Reader.u32 (Binary.u32 v) v :=
  word UInt32.ofNat rfl (by rw [number_u32, UInt32.ofNat_toNat])

theorem u64 (v : UInt64) : Reads Reader.u64 (Binary.u64 v) v :=
  word UInt64.ofNat rfl (by rw [number_u64, UInt64.ofNat_toNat])

/-- A signed number is read from the bytes of its bits. -/
theorem signed {r : Reader α} {bytes : List UInt8} {a : α} {v : β} (sign : α → β)
    (hr : Reads r bytes a) (hsign : sign a = v) : Reads (do return sign (← r)) bytes v := by
  subst hsign
  exact hr.map sign

theorem i8 (v : Int8) : Reads Reader.i8 [v.toUInt8] v :=
  signed UInt8.toInt8 (u8 _) (Int8.toInt8_toUInt8 v)

theorem i16 (v : Int16) : Reads Reader.i16 (Binary.u16 v.toUInt16) v :=
  signed UInt16.toInt16 (u16 _) (Int16.toInt16_toUInt16 v)

theorem i32 (v : Int32) : Reads Reader.i32 (Binary.i32 v) v :=
  signed UInt32.toInt32 (u32 _) (Int32.toInt32_toUInt32 v)

/-- One reader over the bytes of several values, one after the other. -/
theorem repeatOnto {γ : Type} {r : Reader α} {bytes : γ → List UInt8} {items : List γ}
    {values : List α} (h : List.Forall₂ (fun item a => Reads r (bytes item) a) items values)
    (done : List α) :
    Reads (Reader.repeatOnto r done values.length) (items.flatMap bytes)
      (done.reverse ++ values) := by
  induction h generalizing done with
  | nil => simpa [Reader.repeatOnto] using pure done.reverse
  | @cons item a items values hitem _ ih =>
    rw [List.flatMap_cons, List.length_cons]
    refine hitem.bind ?_
    simpa using ih (a :: done)

theorem times {γ : Type} {r : Reader α} {bytes : γ → List UInt8} {items : List γ}
    {values : List α} (h : List.Forall₂ (fun item a => Reads r (bytes item) a) items values) :
    Reads (Reader.times values.length r) (items.flatMap bytes) values :=
  repeatOnto h []

/-- What is read from the start of a byte string, the rest of which does not matter. -/
theorem read_append {r : Reader α} {bytes : List UInt8} {a : α} (h : Reads r bytes a)
    (rest : List UInt8) : r.read (bytes ++ rest) = .ok a := by
  rw [Reader.read, Cursor.start, h rest 0]

theorem read {r : Reader α} {bytes : List UInt8} {a : α} (h : Reads r bytes a) :
    r.read bytes = .ok a := by
  simpa using h.read_append []

end Reads

end ResourceMerge.Binary

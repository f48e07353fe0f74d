import Mathlib.Algebra.Group.Nat.Defs
import Mathlib.Data.List.Induction
import ResourceMerge.Proofs.Outcome
import ResourceMerge.Proofs.Reading

/-! What a reader takes, from where it stands. A reader accepts some bytes at an offset if there it
    answers for exactly these bytes, whatever follows them. A reader is framed if it never succeeds
    in another way: it does not look beyond the bytes that it takes. Of framed readers in sequence
    the accepted bytes split into those of each, so what a reader accepts is computed from its
    parts, in both directions. -/

namespace ResourceMerge.Binary

variable {α β : Type} {pc : Nat} {bytes : List UInt8}

/-- At the offset `pc`, `r` takes exactly `bytes` and answers `a`. -/
def Accepts (r : Reader α) (pc : Nat) (bytes : List UInt8) (a : α) : Prop :=
  ∀ rest, r ⟨bytes ++ rest, pc⟩ = .ok a ⟨rest, pc + bytes.length⟩

/-- Whenever `r` succeeds, it accepts the bytes by which it moved. -/
def Framed (r : Reader α) : Prop :=
  ∀ c a c', r c = .ok a c' → ∃ bytes, c.rest = bytes ++ c'.rest ∧
    c'.offset = c.offset + bytes.length ∧ Accepts r c.offset bytes a

/-! ### The order of bytes in a number -/

/-- Digits in base 256 behind a number. -/
theorem number_append (xs : List UInt8) (b : UInt8) :
    number (xs ++ [b]) = number xs * 256 + b.toNat := by
  rw [number, List.foldl_append]
  rfl

theorem number_lt : ∀ bytes : List UInt8, number bytes < 256 ^ bytes.length := by
  intro bytes
  induction bytes using List.reverseRecOn with
  | nil => decide
  | append_singleton xs b ih =>
    have hb := b.toNat_lt
    rw [number_append, List.length_append, List.length_singleton, Nat.pow_succ]
    omega

/-- Bytes of one width are known by the number that they spell. -/
theorem number_injective : ∀ {xs ys : List UInt8}, xs.length = ys.length →
    number xs = number ys → xs = ys := by
  intro xs
  induction xs using List.reverseRecOn with
  | nil =>
    intro ys hlength _
    exact (List.length_eq_zero_iff.1 hlength.symm).symm
  | append_singleton xs b ih =>
    intro ys hlength hnumber
    obtain ⟨ys, b', rfl⟩ := (List.eq_nil_or_concat ys).resolve_left (by
      rintro rfl
      simp at hlength)
    have hb := b.toNat_lt
    have hb' := b'.toNat_lt
    rw [List.concat_eq_append] at hlength hnumber ⊢
    rw [number_append, number_append] at hnumber
    have hlast : b.toNat = b'.toNat := by omega
    have hfront : number xs = number ys := by omega
    rw [ih (by simpa using hlength) hfront, UInt8.toNat_inj.1 hlast]

/-- Any two bytes are those of a word. -/
theorem exists_u16 {bytes : List UInt8} (h : bytes.length = 2) : ∃ v, bytes = u16 v := by
  have hlt : number bytes < 256 ^ 2 := h ▸ number_lt bytes
  refine ⟨UInt16.ofNat (number bytes), number_injective h ?_⟩
  rw [number_u16]
  exact (UInt16.toNat_ofNat_of_lt hlt).symm

/-! ### Framed readers -/

namespace Framed

theorem pure (a : α) : Framed (pure a) := by
  rintro c _ _ ⟨⟩
  exact ⟨[], rfl, rfl, fun _ => rfl⟩

theorem fail (e : Error) : Framed (Reader.fail e : Reader α) := nofun

theorem ofExcept (x : Except Error α) : Framed (Reader.ofExcept x) := by
  cases x with
  | ok a => exact pure a
  | error e => exact fail e

theorem take (n : Nat) : Framed (Reader.take n) := by
  intro c a c' h
  rcases Nat.lt_or_ge c.rest.length n with hn | hn
  · rw [Reader.take_of_lt hn] at h
    cases h
  · rw [Reader.take_of_le hn] at h
    cases h
    have hlength : (c.rest.take n).length = n := List.length_take_of_le hn
    refine ⟨c.rest.take n, (List.take_append_drop n c.rest).symm, by rw [hlength], fun rest => ?_⟩
    have hread := Reads.take (c.rest.take n) rest c.offset
    rwa [hlength] at hread ⊢

theorem bind {r : Reader α} {f : α → Reader β} (hr : Framed r) (hf : ∀ a, Framed (f a)) :
    Framed (r >>= f) := by
  intro c b c' h
  obtain ⟨a, middle, hmiddle, h⟩ := bind_eq_ok.1 h
  obtain ⟨front, hfront, hoffset, hreads⟩ := hr c a middle hmiddle
  obtain ⟨back, hback, hoffset', hreads'⟩ := hf a middle b c' h
  refine ⟨front ++ back, by rw [hfront, hback, List.append_assoc], ?_, fun rest => ?_⟩
  · rw [hoffset', hoffset, List.length_append, Nat.add_assoc]
  · rw [List.append_assoc, bind_eq_ok, List.length_append, ← Nat.add_assoc]
    rw [hoffset] at hreads'
    exact ⟨a, _, hreads _, hreads' rest⟩

theorem map {r : Reader α} (hr : Framed r) (g : α → β) :
    Framed (r >>= fun a => Pure.pure (g a)) :=
  hr.bind fun a => pure (g a)

theorem ite {p : Prop} [Decidable p] {r r' : Reader α} (h : Framed r) (h' : Framed r') :
    Framed (if p then r else r') := by
  by_cases hp : p
  · rwa [if_pos hp]
  · rwa [if_neg hp]

/-- A reader behind a check that ends in an error. -/
theorem guard {p : Prop} [Decidable p] {e : Error} {r : Reader α} (h : Framed r) :
    Framed (if p then (Reader.fail e : Reader Unit) >>= fun _ => r else r) :=
  ((fail e).bind fun _ => h).ite h

/-- A reader that looks where it stands. -/
theorem located {f : Nat → Reader α} (h : ∀ pc, Framed (f pc)) :
    Framed (get >>= fun c : Cursor => f c.offset) :=
  fun c a c' hrun => h c.offset c a c' hrun

theorem skip (n : Nat) : Framed (Reader.skip n) := (take n).map fun _ => ()

theorem u8 : Framed Reader.u8 := (take 1).map _

theorem u16 : Framed Reader.u16 := (take 2).map _

theorem i8 : Framed Reader.i8 := u8.map _

theorem u32 : Framed Reader.u32 := (take 4).map _

theorem i16 : Framed Reader.i16 := u16.map _

theorem i32 : Framed Reader.i32 := u32.map _

theorem u64 : Framed Reader.u64 := (take 8).map _

end Framed

/-! ### What is accepted -/

namespace Accepts

/-- What is read wherever it stands is accepted at every offset. -/
theorem of_reads {r : Reader α} {a : α} (h : Reads r bytes a) : Accepts r pc bytes a :=
  fun rest => h rest pc

end Accepts

theorem accepts_pure {a b : α} : Accepts (pure a) pc bytes b ↔ bytes = [] ∧ b = a := by
  constructor
  · intro h
    have hrun := h []
    rw [List.append_nil] at hrun
    cases bytes with
    | nil =>
      cases hrun
      exact ⟨rfl, rfl⟩
    | cons x xs => cases hrun
  · rintro ⟨rfl, rfl⟩ rest
    rfl

theorem not_accepts_fail {e : Error} {a : α} : ¬Accepts (Reader.fail e) pc bytes a := by
  intro h
  cases h []

/-- A reader behind a check that ends in an error. -/
theorem accepts_guard {p : Prop} [Decidable p] {e : Error} {r : Reader α} {a : α} :
    Accepts (if p then (Reader.fail e : Reader Unit) >>= fun _ => r else r) pc bytes a ↔
      ¬p ∧ Accepts r pc bytes a := by
  by_cases hp : p
  · rw [if_pos hp]
    exact iff_of_false not_accepts_fail fun h => h.1 hp
  · rw [if_neg hp, and_iff_right hp]

theorem accepts_ofExcept {x : Except Error α} {a : α} :
    Accepts (Reader.ofExcept x) pc bytes a ↔ bytes = [] ∧ x = .ok a := by
  cases x with
  | ok b =>
    refine accepts_pure.trans (and_congr_right fun _ => ?_)
    rw [Except.ok.injEq, eq_comm]
  | error e =>
    simp only [reduceCtorEq, and_false, iff_false]
    exact not_accepts_fail

theorem accepts_bind {r : Reader α} {f : α → Reader β} {b : β} (hr : Framed r) :
    Accepts (r >>= f) pc bytes b ↔ ∃ front back a, bytes = front ++ back ∧ Accepts r pc front a ∧
      Accepts (f a) (pc + front.length) back b := by
  constructor
  · intro h
    obtain ⟨a, middle, hmiddle, -⟩ := bind_eq_ok.1 (h [])
    obtain ⟨front, hfront, -, hreads⟩ := hr _ a middle hmiddle
    simp only [List.append_nil] at hfront
    refine ⟨front, middle.rest, a, hfront, hreads, fun rest => ?_⟩
    -- the same run with more bytes behind it
    have hrun := h rest
    rw [hfront, List.append_assoc, bind_eq_ok] at hrun
    obtain ⟨a', later, hlater, hrun⟩ := hrun
    have hsame := (hreads (middle.rest ++ rest)).symm.trans hlater
    cases hsame
    rwa [List.length_append, ← Nat.add_assoc] at hrun
  · rintro ⟨front, back, a, rfl, hfront, hback⟩ rest
    rw [List.append_assoc, bind_eq_ok, List.length_append, ← Nat.add_assoc]
    exact ⟨a, _, hfront _, hback rest⟩

theorem accepts_map {r : Reader α} (hr : Framed r) {g : α → β} {b : β} :
    Accepts (r >>= fun a => pure (g a)) pc bytes b ↔ ∃ a, Accepts r pc bytes a ∧ b = g a := by
  simp only [accepts_bind hr, accepts_pure]
  constructor
  · rintro ⟨front, _, a, rfl, ha, rfl, rfl⟩
    exact ⟨a, by rwa [List.append_nil], rfl⟩
  · rintro ⟨a, ha, rfl⟩
    exact ⟨bytes, [], a, (List.append_nil bytes).symm, ha, rfl, rfl⟩

theorem accepts_located {f : Nat → Reader α} {a : α} :
    Accepts (get >>= fun c : Cursor => f c.offset) pc bytes a ↔ Accepts (f pc) pc bytes a :=
  Iff.rfl

theorem accepts_take {n : Nat} {a : List UInt8} :
    Accepts (Reader.take n) pc bytes a ↔ bytes.length = n ∧ a = bytes := by
  constructor
  · intro h
    obtain ⟨front, hfront, -, -⟩ := Framed.take n _ _ _ (h [])
    have hrun := h []
    rw [List.append_nil] at hrun
    rcases Nat.lt_or_ge bytes.length n with hn | hn
    · rw [Reader.take_of_lt hn] at hrun
      cases hrun
    · rw [Reader.take_of_le hn, EStateM.Result.ok.injEq, Cursor.mk.injEq,
        List.drop_eq_nil_iff] at hrun
      obtain ⟨rfl, hle, -⟩ := hrun
      exact ⟨Nat.le_antisymm hle hn, List.take_of_length_le hle⟩
  · rintro ⟨rfl, rfl⟩
    exact .of_reads (Reads.take _)

theorem accepts_skip {n : Nat} {u : Unit} :
    Accepts (Reader.skip n) pc bytes u ↔ bytes.length = n := by
  rw [Reader.skip, accepts_map (Framed.take n)]
  simp [accepts_take]

/-- A word of some width is read from its own bytes and from no others. -/
theorem accepts_word {n : Nat} {ofNat : Nat → α} {toNat : α → Nat} (write : α → List UInt8) {v : α}
    (hlength : (write v).length = n) (hwrite : number (write v) = toNat v)
    (hnumber : ∀ k < 256 ^ n, toNat (ofNat k) = k) (hword : ofNat (toNat v) = v) :
    Accepts (do return ofNat (number (← Reader.take n))) pc bytes v ↔ bytes = write v := by
  rw [accepts_map (Framed.take n)]
  simp only [accepts_take]
  constructor
  · rintro ⟨found, ⟨hbytes, rfl⟩, rfl⟩
    have hlt : number found < 256 ^ n := hbytes ▸ number_lt found
    exact number_injective (hbytes.trans hlength.symm) (by rw [hwrite, hnumber _ hlt])
  · rintro rfl
    exact ⟨_, ⟨hlength, rfl⟩, by rw [hwrite, hword]⟩

theorem accepts_u8 {b : UInt8} : Accepts Reader.u8 pc bytes b ↔ bytes = [b] :=
  accepts_word (fun b => [b]) rfl (by simp [number])
    (fun _ hk => UInt8.toNat_ofNat_of_lt hk) (UInt8.ofNat_toNat)

theorem accepts_u16 {v : UInt16} : Accepts Reader.u16 pc bytes v ↔ bytes = u16 v :=
  accepts_word u16 rfl (number_u16 v) (fun _ hk => UInt16.toNat_ofNat_of_lt hk) UInt16.ofNat_toNat

theorem accepts_u32 {v : UInt32} : Accepts Reader.u32 pc bytes v ↔ bytes = u32 v :=
  accepts_word u32 rfl (number_u32 v) (fun _ hk => UInt32.toNat_ofNat_of_lt hk) UInt32.ofNat_toNat

theorem accepts_u64 {v : UInt64} : Accepts Reader.u64 pc bytes v ↔ bytes = u64 v :=
  accepts_word u64 rfl (number_u64 v) (fun _ hk => UInt64.toNat_ofNat_of_lt hk) UInt64.ofNat_toNat

/-- A signed number is read from the bytes of its bits. -/
theorem accepts_signed {r : Reader α} {sign : α → β} {bits : β → α} (write : α → List UInt8) {v : β}
    (hr : Framed r) (hword : ∀ {a}, Accepts r pc bytes a ↔ bytes = write a)
    (hsign : ∀ a, bits (sign a) = a) (hbits : sign (bits v) = v) :
    Accepts (r >>= fun a => pure (sign a)) pc bytes v ↔ bytes = write (bits v) := by
  rw [accepts_map hr]
  simp only [hword]
  constructor
  · rintro ⟨a, rfl, rfl⟩
    rw [hsign]
  · rintro rfl
    exact ⟨_, rfl, hbits.symm⟩

theorem accepts_i8 {v : Int8} : Accepts Reader.i8 pc bytes v ↔ bytes = [v.toUInt8] :=
  accepts_signed (fun b => [b]) Framed.u8 accepts_u8 (fun _ => UInt8.toUInt8_toInt8 _)
    (Int8.toInt8_toUInt8 v)

theorem accepts_i16 {v : Int16} : Accepts Reader.i16 pc bytes v ↔ bytes = u16 v.toUInt16 :=
  accepts_signed u16 Framed.u16 accepts_u16 (fun _ => UInt16.toUInt16_toInt16 _)
    (Int16.toInt16_toUInt16 v)

theorem accepts_i32 {v : Int32} : Accepts Reader.i32 pc bytes v ↔ bytes = i32 v :=
  accepts_signed u32 Framed.u32 accepts_u32 (fun _ => UInt32.toUInt32_toInt32 _)
    (Int32.toInt32_toUInt32 v)

/-- A word is taken first, and the rest behind it. -/
theorem accepts_u16_bind {f : UInt16 → Reader β} {b : β} :
    Accepts (Reader.u16 >>= f) pc bytes b ↔
      ∃ v rest, bytes = u16 v ++ rest ∧ Accepts (f v) (pc + (u16 v).length) rest b := by
  rw [accepts_bind Framed.u16]
  simp only [accepts_u16]
  constructor
  · rintro ⟨_, rest, v, rfl, rfl, h⟩
    exact ⟨v, rest, rfl, h⟩
  · rintro ⟨v, rest, rfl, h⟩
    exact ⟨_, rest, v, rfl, rfl, h⟩

/-- A look-up takes nothing, and must succeed. -/
theorem accepts_ofExcept_bind {x : Except Error α} {f : α → Reader β} {b : β} :
    Accepts (Reader.ofExcept x >>= f) pc bytes b ↔ ∃ a, x = .ok a ∧ Accepts (f a) pc bytes b := by
  rw [accepts_bind (.ofExcept x)]
  simp only [accepts_ofExcept]
  constructor
  · rintro ⟨_, rest, a, rfl, ⟨rfl, hx⟩, h⟩
    exact ⟨a, hx, h⟩
  · rintro ⟨a, hx, h⟩
    exact ⟨[], bytes, a, rfl, ⟨rfl, hx⟩, h⟩

end ResourceMerge.Binary

import Mathlib.Algebra.Order.Field.Power
import Mathlib.Data.Rat.Cast.Order
import Mathlib.Tactic.FieldSimp
import Mathlib.Tactic.GCongr
import Mathlib.Tactic.Linarith
import Mathlib.Tactic.NormNum
import Mathlib.Tactic.Positivity
import Mathlib.Tactic.Ring
import ResourceMerge.Text.Rounding

/-! Positive numbers rounded to a significand of 53 bits. The size of a number decides its unit, a
    power of two of which it has between `2 ^ 52` and `2 ^ 53`, and the number is rounded to a
    nearest multiple of this unit. So a multiple of the unit is never passed, from either side, and
    a number that needs no more than 53 bits stays as it is.

    A division after a rounding is rounded again, and the two errors may add up to more than the gap
    below a whole quotient. What keeps the quotient below is that the dividend is on a grid: it
    misses the multiple of the divisor by a whole unit. -/

namespace ResourceMerge.Text

variable {x y z : Rat} {e e' : Int} {n d : Nat}

/-! ### Multiples of a power of two -/

/-- `x` is a multiple of `2 ^ e`. -/
def OnGrid (e : Int) (x : Rat) : Prop := ∃ k : Int, x = k * 2 ^ e

namespace OnGrid

theorem intCast (he : e ≤ 0) (k : Int) : OnGrid e k := by
  refine ⟨k * 2 ^ (-e).toNat, ?_⟩
  have hone : (2 : Rat) ^ (-e).toNat * 2 ^ e = 1 := by
    rw [← zpow_natCast, ← zpow_add₀ two_ne_zero, Int.toNat_of_nonneg (by omega), neg_add_cancel,
      zpow_zero]
  push_cast
  rw [mul_assoc, hone, mul_one]

theorem finer (h : OnGrid e x) (he : e' ≤ e) : OnGrid e' x := by
  obtain ⟨k, rfl⟩ := h
  refine ⟨k * 2 ^ (e - e').toNat, ?_⟩
  have hsplit : (2 : Rat) ^ e = 2 ^ (e - e').toNat * 2 ^ e' := by
    rw [← zpow_natCast, ← zpow_add₀ two_ne_zero, Int.toNat_of_nonneg (by omega), sub_add_cancel]
  push_cast
  rw [hsplit, mul_assoc]

theorem sub (hx : OnGrid e x) (hy : OnGrid e y) : OnGrid e (x - y) := by
  obtain ⟨k, rfl⟩ := hx
  obtain ⟨l, rfl⟩ := hy
  exact ⟨k - l, by push_cast; ring⟩

/-- What is above a multiple of the unit is above it by a whole unit. -/
theorem le_of_lt_add (hx : OnGrid e x) (hy : OnGrid e y) (h : x < y + 2 ^ e) : x ≤ y := by
  obtain ⟨k, rfl⟩ := hx
  obtain ⟨l, rfl⟩ := hy
  have hunit : (0 : Rat) < 2 ^ e := by positivity
  have hlt : (k : Rat) < l + 1 := by
    rw [← add_one_mul] at h
    exact lt_of_mul_lt_mul_right h hunit.le
  have hle : k ≤ l := Int.lt_add_one_iff.1 (by exact_mod_cast hlt)
  exact mul_le_mul_of_nonneg_right (by exact_mod_cast hle) hunit.le

end OnGrid

/-! ### The unit of a number -/

theorem abs_roundQuotient_sub_le (n : Nat) (hd : 0 < d) :
    |(roundQuotient n d : Rat) - n / d| ≤ 1 / 2 := by
  obtain ⟨hlow, hhigh⟩ := roundQuotient_near n hd
  have hd' : (0 : Rat) < d := by exact_mod_cast hd
  have hlow' : (2 : Rat) * n ≤ 2 * (roundQuotient n d * d) + d := by exact_mod_cast hlow
  have hhigh' : (2 : Rat) * (roundQuotient n d * d) ≤ 2 * n + d := by exact_mod_cast hhigh
  have habove : (n / d : Rat) ≤ roundQuotient n d + 1 / 2 := by
    rw [div_le_iff₀ hd']
    linarith
  have hbelow : (roundQuotient n d : Rat) - 1 / 2 ≤ n / d := by
    rw [le_div_iff₀ hd']
    linarith
  exact abs_le.2 ⟨by linarith, by linarith⟩

/-- The comparison by which a guess of the exponent is lowered. -/
theorem scaled_iff (hd : 0 < d) (guess : Int) :
    (if 0 ≤ guess then n < d * Nat.pow 2 (guess.toNat + 52)
      else n * Nat.pow 2 (-guess).toNat < d * Nat.pow 2 52)
      ↔ (n / d : Rat) < 2 ^ (guess + 52) := by
  have hd' : (0 : Rat) < d := by exact_mod_cast hd
  simp only [Nat.pow_eq]
  rw [div_lt_iff₀ hd']
  split
  · rename_i hguess
    obtain ⟨k, rfl⟩ := Int.eq_ofNat_of_zero_le hguess
    rw [Int.toNat_natCast, mul_comm]
    exact_mod_cast Iff.rfl
  · rename_i hguess
    obtain ⟨k, hk⟩ := Int.eq_ofNat_of_zero_le (show 0 ≤ -guess by omega)
    obtain rfl : guess = -k := by omega
    have hpow : (0 : Rat) < 2 ^ k := by positivity
    have hscaled : (2 : Rat) ^ (-(k : Int) + 52) * d = d * 2 ^ 52 / 2 ^ k := by
      rw [zpow_add₀ two_ne_zero, zpow_neg, zpow_natCast]
      field_simp
    rw [neg_neg, Int.toNat_natCast, hscaled, lt_div_iff₀ hpow]
    exact_mod_cast Iff.rfl

/-- A fraction has between `2 ^ 52` and `2 ^ 53` of its units. -/
theorem unitExponent_bounds (hn : 0 < n) (hd : 0 < d) :
    (2 : Rat) ^ (unitExponent n d + 52) ≤ n / d ∧
      (n / d : Rat) < 2 ^ (unitExponent n d + 53) := by
  have hnlow : (2 : Rat) ^ (n.log2 : Int) ≤ n := by exact_mod_cast Nat.log2_self_le hn.ne'
  have hnhigh : (n : Rat) < 2 ^ (n.log2 + 1 : Int) := by exact_mod_cast Nat.lt_log2_self
  have hdlow : (2 : Rat) ^ (d.log2 : Int) ≤ d := by exact_mod_cast Nat.log2_self_le hd.ne'
  have hdhigh : (d : Rat) < 2 ^ (d.log2 + 1 : Int) := by exact_mod_cast Nat.lt_log2_self
  have hd' : (0 : Rat) < d := by exact_mod_cast hd
  unfold unitExponent
  simp only [scaled_iff hd]
  generalize hguess : (n.log2 : Int) - d.log2 - 52 = guess
  -- the guess may be one too large, and not more
  have hlow : (2 : Rat) ^ (guess + 51) ≤ n / d := by
    rw [le_div_iff₀ hd']
    calc (2 : Rat) ^ (guess + 51) * d ≤ 2 ^ (guess + 51) * 2 ^ (d.log2 + 1 : Int) := by gcongr
      _ = 2 ^ (n.log2 : Int) := by rw [← zpow_add₀ two_ne_zero]; congr 1; omega
      _ ≤ n := hnlow
  have hhigh : (n / d : Rat) < 2 ^ (guess + 53) := by
    rw [div_lt_iff₀ hd']
    calc (n : Rat) < 2 ^ (n.log2 + 1 : Int) := hnhigh
      _ = 2 ^ (guess + 53) * 2 ^ (d.log2 : Int) := by rw [← zpow_add₀ two_ne_zero]; congr 1; omega
      _ ≤ 2 ^ (guess + 53) * d := by gcongr
  split
  · rename_i hless
    have h51 : guess - 1 + 52 = guess + 51 := by omega
    have h52 : guess - 1 + 53 = guess + 52 := by omega
    rw [h51, h52]
    exact ⟨hlow, hless⟩
  · rename_i hless
    exact ⟨not_lt.1 hless, hhigh⟩

/-! ### Rounding to a unit -/

/-- `y` is a nearest multiple of `2 ^ e`, the unit of `x`. -/
structure Rounds (x : Rat) (e : Int) (y : Rat) : Prop where
  least : 2 ^ (e + 52) ≤ x
  below : x < 2 ^ (e + 53)
  onGrid : OnGrid e y
  near : |y - x| ≤ 2 ^ e / 2

/-- The count of units is rounded to a whole number. -/
theorem Rounds.of_quotient (hd : 0 < d) (hx : (n / d : Rat) * 2 ^ e = x)
    (hleast : 2 ^ (e + 52) ≤ x) (hbelow : x < 2 ^ (e + 53)) :
    Rounds x e (roundQuotient n d * 2 ^ e) where
  least := hleast
  below := hbelow
  onGrid := ⟨roundQuotient n d, by push_cast; rfl⟩
  near := by
    have hunit : (0 : Rat) < 2 ^ e := by positivity
    calc |(roundQuotient n d * 2 ^ e - x : Rat)|
        = |(roundQuotient n d - n / d : Rat)| * 2 ^ e := by
          rw [← hx, ← sub_mul, abs_mul, abs_of_pos hunit]
      _ ≤ 1 / 2 * 2 ^ e := mul_le_mul_of_nonneg_right (abs_roundQuotient_sub_le n hd) hunit.le
      _ = 2 ^ e / 2 := by ring

/-- A positive number is rounded to a nearest multiple of its unit. -/
theorem rounds_round53 (hx : 0 < x) : ∃ e, Rounds x e (round53 x) := by
  have hnum : 0 < x.num := Rat.num_pos.2 hx
  have hsize : 0 < x.num.natAbs := Int.natAbs_pos.2 hnum.ne'
  have hquotient : (x.num.natAbs / x.den : Rat) = x := by
    rw [Nat.cast_natAbs, abs_of_pos hnum, Rat.num_div_den]
  have hden := x.den_pos
  obtain ⟨hleast, hbelow⟩ := unitExponent_bounds hsize hden
  rw [hquotient] at hleast hbelow
  refine ⟨unitExponent x.num.natAbs x.den, ?_⟩
  unfold round53
  simp only [if_neg hsize.ne', if_neg (not_lt.2 hnum.le), Nat.pow_eq]
  generalize unitExponent x.num.natAbs x.den = e at *
  generalize x.num.natAbs = n at *
  generalize x.den = d at *
  split
  · rename_i he
    obtain ⟨k, rfl⟩ := Int.eq_ofNat_of_zero_le he
    have hunits : (n / (d * 2 ^ k : Nat) : Rat) * 2 ^ (k : Int) = x := by
      push_cast
      rw [zpow_natCast, ← hquotient]
      field_simp
    have hround := Rounds.of_quotient (by positivity) hunits hleast hbelow
    rwa [Int.toNat_natCast, Nat.cast_mul, Nat.cast_pow, Nat.cast_ofNat, ← zpow_natCast]
  · rename_i he
    obtain ⟨k, hk⟩ := Int.eq_ofNat_of_zero_le (show 0 ≤ -e by omega)
    obtain rfl : e = -k := by omega
    have hunits : ((n * 2 ^ k : Nat) / d : Rat) * 2 ^ (-k : Int) = x := by
      push_cast
      rw [zpow_neg, zpow_natCast, ← hquotient]
      field_simp
    have hround := Rounds.of_quotient hden hunits hleast hbelow
    rwa [neg_neg, Int.toNat_natCast, Rat.mkRat_eq_div, Int.cast_natCast, Nat.cast_pow,
      Nat.cast_ofNat, ← zpow_natCast, div_eq_mul_inv, ← zpow_neg]

namespace Rounds

/-- A multiple of the unit above a number is not passed. -/
theorem le (h : Rounds x e y) (hz : OnGrid e z) (hle : x ≤ z) : y ≤ z := by
  have hunit : (0 : Rat) < 2 ^ e := by positivity
  have hnear := (abs_le.1 h.near).2
  exact h.onGrid.le_of_lt_add hz (by linarith)

/-- A multiple of the unit below a number is not passed. -/
theorem ge (h : Rounds x e y) (hz : OnGrid e z) (hle : z ≤ x) : z ≤ y := by
  have hunit : (0 : Rat) < 2 ^ e := by positivity
  have hnear := (abs_le.1 h.near).1
  exact hz.le_of_lt_add h.onGrid (by linarith)

theorem le_pow (h : Rounds x e y) : y ≤ 2 ^ (e + 53) := by
  refine h.le ⟨2 ^ 53, ?_⟩ h.below.le
  rw [zpow_add₀ two_ne_zero, mul_comm]
  norm_cast

/-- A rounded number below a multiple of 60 has a quotient by 60 that is still below the factor when
    it is rounded, too. -/
theorem quotient_lt {k : Int} (h : Rounds x e y) (hquotient : Rounds (y / 60) e' z) (he : e ≤ 0)
    (hlt : y < 60 * k) : z < k := by
  have hunit : (0 : Rat) < 2 ^ e := by positivity
  have hmultiple : OnGrid e (60 * k : Rat) := by exact_mod_cast OnGrid.intCast he (60 * k)
  have hgap : y + 2 ^ e ≤ 60 * k := by
    by_contra hclose
    exact absurd (hmultiple.le_of_lt_add h.onGrid (not_le.1 hclose)) (not_le.2 hlt)
  -- 60 exceeds `2 ^ 5`, so the unit of the quotient is smaller by five powers at least
  have hpow : (2 : Rat) ^ (e' + 52) < 2 ^ (e + 48) := by
    have hleast := hquotient.least
    have hmost := h.le_pow
    have hsplit : (2 : Rat) ^ (e + 53) = 32 * 2 ^ (e + 48) := by
      rw [show e + 53 = 5 + (e + 48) by ring, zpow_add₀ two_ne_zero]
      norm_num
    have hpos : (0 : Rat) < 2 ^ (e + 48) := by positivity
    linarith
  rw [zpow_lt_zpow_iff_right₀ one_lt_two] at hpow
  have hunits : (2 : Rat) ^ e' ≤ 2 ^ e / 32 := by
    calc (2 : Rat) ^ e' ≤ 2 ^ (e - 5) := zpow_le_zpow_right₀ one_le_two (by omega)
      _ = 2 ^ e / 32 := by rw [zpow_sub₀ two_ne_zero]; norm_num
  have hnear := (abs_le.1 hquotient.near).2
  linarith

end Rounds

/-- A number that needs no more than 53 bits is not changed. -/
theorem round53_eq_self (h : OnGrid e x) (hx : 0 ≤ x) (hlt : x < 2 ^ (e + 53)) :
    round53 x = x := by
  rcases hx.eq_or_lt with rfl | hpos
  · rfl
  · obtain ⟨e', hround⟩ := rounds_round53 hpos
    have hpow : (2 : Rat) ^ (e' + 52) < 2 ^ (e + 53) := hround.least.trans_lt hlt
    rw [zpow_lt_zpow_iff_right₀ one_lt_two] at hpow
    have hgrid := h.finer (show e' ≤ e by omega)
    exact le_antisymm (hround.le hgrid le_rfl) (hround.ge hgrid le_rfl)

theorem round53_natCast (h : n < 2 ^ 53) : round53 n = n := by
  have hgrid : OnGrid 0 (n : Rat) := OnGrid.intCast le_rfl n
  exact round53_eq_self hgrid (by positivity) (by exact_mod_cast h)

end ResourceMerge.Text

import ResourceMerge.Text.Numeral

/-! Rounding, always to the nearest and from halfway to the even neighbour: of a quotient to a whole
    number, of a number to a significand of 53 bits, and of a number to a fixed count of decimal
    places. Numbers are exact fractions, so the only loss is the one a rounding states. -/

namespace ResourceMerge.Text

/-- The whole number nearest to `n / d`. -/
def roundQuotient (n d : Nat) : Nat :=
  let q := n / d
  let twice := 2 * (n % d)
  if twice < d then q
  else if d < twice then q + 1
  else q + q % 2

/-- No whole number is nearer: the rounded one lies within half a unit. -/
theorem roundQuotient_near (n : Nat) {d : Nat} (h : 0 < d) :
    2 * n ≤ 2 * (roundQuotient n d * d) + d ∧ 2 * (roundQuotient n d * d) ≤ 2 * n + d := by
  have hm := Nat.mod_lt n h
  have hd := Nat.div_add_mod n d
  have hc := Nat.mul_comm d (n / d)
  unfold roundQuotient
  simp only
  split
  · omega
  · split
    · rw [Nat.add_mul]; omega
    · rcases Nat.mod_two_eq_zero_or_one (n / d) with hp | hp <;> rw [hp, Nat.add_mul] <;> omega

/-- The exponent of two that leaves a significand of 53 bits of the fraction `n / d`. -/
def unitExponent (n d : Nat) : Int :=
  let guess := (Nat.log2 n : Int) - Nat.log2 d - 52
  -- the fraction lies between 2 ^ (guess + 51) and 2 ^ (guess + 53)
  let scaled := if 0 ≤ guess then n < d * Nat.pow 2 (guess.toNat + 52)
    else n * Nat.pow 2 (-guess).toNat < d * Nat.pow 2 52
  if scaled then guess - 1 else guess

/-- A fraction rounded to a significand of 53 bits. -/
def round53 (x : Rat) : Rat :=
  let n := x.num.natAbs
  if n = 0 then 0
  else
    let e := unitExponent n x.den
    let m := if 0 ≤ e then roundQuotient n (x.den * Nat.pow 2 e.toNat) * Nat.pow 2 e.toNat
      else roundQuotient (n * Nat.pow 2 (-e).toNat) x.den
    let size : Rat := if 0 ≤ e then m else mkRat m (Nat.pow 2 (-e).toNat)
    if x.num < 0 then -size else size

/-- A fraction with a fixed count of decimal places, one at least; a negative fraction keeps its
    sign also where all places are zero. -/
def fixed (places : Nat) (x : Rat) : String :=
  let digits := decimalPadded (places + 1) (roundQuotient (x.num.natAbs * Nat.pow 10 places) x.den)
  let whole := digits.toList.length - places
  (if x.num < 0 then "-" else "") ++ String.ofList (digits.toList.take whole) ++ "."
    ++ String.ofList (digits.toList.drop whole)

end ResourceMerge.Text

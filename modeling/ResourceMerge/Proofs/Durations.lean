import ResourceMerge.Proofs.Rounding
import ResourceMerge.Text.Duration

/-! Durations of a minute and more. The minutes are the whole part of a quotient of rounded numbers,
    and the seconds are what a rounded subtraction leaves; for every duration below `2 ^ 53`
    milliseconds the minutes are nevertheless those of the duration, and the subtraction is exact.
    So only two roundings can be seen: of the seconds of the whole duration to 53 bits, by less than
    a millisecond, and of the seconds left to a tenth. The second one may go up to a full minute,
    which is not carried into the minutes: such a duration is shown with 60.0 seconds. -/

namespace ResourceMerge.Text

variable {x : Rat} {milliseconds : Nat}

/-! ### A number with one decimal place -/

/-- The tenths of a number that is not negative, rounded. -/
def tenths (x : Rat) : Nat := roundQuotient (x.num.natAbs * 10) x.den

theorem toList_decimalPadded_two (n : Nat) :
    (decimalPadded 2 n).toList = Nat.toDigits 10 (n / 10) ++ Nat.toDigits 10 (n % 10) := by
  have hlast : Nat.toDigits 10 (n % 10) = [(n % 10).digitChar] :=
    Nat.toDigits_of_lt_base (Nat.mod_lt n (by decide))
  rw [decimalPadded, padZeros, String.toList_ofList, hlast]
  rcases Nat.lt_or_ge n 10 with hn | hn
  · rw [Nat.toDigits_of_lt_base hn, Nat.div_eq_of_lt hn, Nat.mod_eq_of_lt hn]
    rfl
  · have hfront : 0 < (Nat.toDigits 10 (n / 10)).length := Nat.length_toDigits_pos
    rw [Nat.toDigits_of_base_le (by decide) hn, List.length_append, List.length_singleton,
      Nat.sub_eq_zero_of_le (by omega), List.replicate_zero, List.nil_append]

theorem fixed_one (hx : 0 ≤ x) :
    fixed 1 x = toString (tenths x / 10) ++ "." ++ toString (tenths x % 10) := by
  have hsign : ¬x.num < 0 := not_lt.2 (Rat.num_nonneg.2 hx)
  have hdigits : (decimalPadded (1 + 1)
      (roundQuotient (x.num.natAbs * Nat.pow 10 1) x.den)).toList
        = Nat.toDigits 10 (tenths x / 10) ++ Nat.toDigits 10 (tenths x % 10) :=
    toList_decimalPadded_two (tenths x)
  have hlast : (Nat.toDigits 10 (tenths x % 10)).length = 1 := by
    rw [Nat.toDigits_of_lt_base (Nat.mod_lt _ (by decide)), List.length_singleton]
  rw [fixed, hdigits, if_neg hsign, List.length_append, hlast, Nat.add_sub_cancel, List.take_left,
    List.drop_left, String.empty_append, Nat.toString_eq_ofList_toDigits,
    Nat.toString_eq_ofList_toDigits]

theorem abs_tenths_sub_le (hx : 0 ≤ x) : |(tenths x : Rat) - 10 * x| ≤ 1 / 2 := by
  have hnear := abs_roundQuotient_sub_le (x.num.natAbs * 10) x.den_pos
  have hx' : ((x.num.natAbs * 10 : Nat) / x.den : Rat) = 10 * x := by
    push_cast
    rw [Nat.cast_natAbs, abs_of_nonneg (Rat.num_nonneg.2 hx), mul_comm, mul_div_assoc,
      Rat.num_div_den]
  rwa [hx'] at hnear

/-- The tenths of a minute are reached at 59.95 seconds: 600 is even, so a half goes there. -/
theorem tenths_lt_iff (hx : 0 ≤ x) : tenths x < 600 ↔ x < 1199 / 20 := by
  obtain ⟨hlow, hhigh⟩ := abs_le.1 (abs_tenths_sub_le hx)
  rcases lt_trichotomy x (1199 / 20) with hlt | rfl | hgt
  · have hless : (tenths x : Rat) < 600 := by linarith
    exact iff_of_true (by exact_mod_cast hless) hlt
  · exact iff_of_false (by decide +kernel) (lt_irrefl _)
  · have hmore : (599 : Rat) < tenths x := by linarith
    have hmore' : 599 < tenths x := by exact_mod_cast hmore
    exact iff_of_false (by omega) (not_lt.2 hgt.le)

/-! ### Minutes and seconds -/

/-- The seconds behind the whole minutes, of the rounded number of seconds. -/
def secondsLeft (milliseconds : Nat) : Rat :=
  round53 (milliseconds / 1000) - 60 * (milliseconds / 60000 : Nat)

/-- Whole minutes are multiples of every unit that divides a second. -/
theorem onGrid_minutes {e : Int} (he : e ≤ 0) (milliseconds : Nat) :
    OnGrid e (60 * (milliseconds / 60000 : Nat) : Rat) := by
  exact_mod_cast OnGrid.intCast he (60 * (milliseconds / 60000 : Nat))

theorem one_le_minutes (hmin : 60000 ≤ milliseconds) :
    (1 : Rat) ≤ (milliseconds / 60000 : Nat) := by
  exact_mod_cast Nat.div_pos hmin (by decide)

section Split

variable (hmin : 60000 ≤ milliseconds) (hmax : milliseconds < 2 ^ 53)
include hmin hmax

/-- The unit of the seconds is `2 ^ -9` at most. -/
theorem exists_rounds_seconds :
    ∃ e ≤ (-9 : Int), Rounds (milliseconds / 1000) e (round53 (milliseconds / 1000)) := by
  have hpos : (0 : Rat) < milliseconds := by exact_mod_cast (show 0 < milliseconds by omega)
  have hmax' : (milliseconds : Rat) < 2 ^ 53 := by exact_mod_cast hmax
  obtain ⟨e, hround⟩ := rounds_round53 (show (0 : Rat) < milliseconds / 1000 by positivity)
  have hpow : (2 : Rat) ^ (e + 52) < 2 ^ (44 : Int) := by
    refine hround.least.trans_lt ?_
    rw [div_lt_iff₀ (by norm_num)]
    exact hmax'.trans (by norm_num)
  rw [zpow_lt_zpow_iff_right₀ one_lt_two] at hpow
  exact ⟨e, by omega, hround⟩

/-- The error is less than a millisecond. -/
theorem abs_seconds_sub_le :
    |round53 (milliseconds / 1000) - milliseconds / 1000| ≤ (1 / 1024 : Rat) := by
  obtain ⟨e, he, hround⟩ := exists_rounds_seconds hmin hmax
  have hunit : (2 : Rat) ^ e ≤ 2 ^ (-9 : Int) := zpow_le_zpow_right₀ one_le_two he
  calc |round53 (milliseconds / 1000) - milliseconds / 1000|
      ≤ (2 : Rat) ^ e / 2 := hround.near
    _ ≤ 2 ^ (-9 : Int) / 2 := div_le_div_of_nonneg_right hunit zero_le_two
    _ = 1 / 1024 := by norm_num

theorem secondsLeft_nonneg : 0 ≤ secondsLeft milliseconds := by
  obtain ⟨e, he, hround⟩ := exists_rounds_seconds hmin hmax
  have hwhole : 60000 * (milliseconds / 60000) ≤ milliseconds := Nat.mul_div_le _ _
  have hwhole' : (60000 * (milliseconds / 60000 : Nat) : Rat) ≤ milliseconds := by
    exact_mod_cast hwhole
  have hle := hround.ge (onGrid_minutes (by omega) milliseconds) (by linarith)
  rw [secondsLeft]
  linarith

/-- The seconds left are those of the duration, up to less than a millisecond. -/
theorem abs_secondsLeft_sub_le :
    |secondsLeft milliseconds - (milliseconds % 60000 : Nat) / 1000| ≤ 1 / 1024 := by
  have hsplit : (milliseconds : Rat)
      = 60000 * (milliseconds / 60000 : Nat) + (milliseconds % 60000 : Nat) := by
    exact_mod_cast (Nat.div_add_mod milliseconds 60000).symm
  have hnear := abs_seconds_sub_le hmin hmax
  have hsame : secondsLeft milliseconds - (milliseconds % 60000 : Nat) / 1000
      = round53 (milliseconds / 1000) - milliseconds / 1000 := by
    rw [secondsLeft]
    linarith
  rwa [hsame]

theorem secondsLeft_lt : secondsLeft milliseconds < 60 := by
  have hnear := (abs_le.1 (abs_secondsLeft_sub_le hmin hmax)).2
  have hleft : milliseconds % 60000 ≤ 59999 := by omega
  have hleft' : ((milliseconds % 60000 : Nat) : Rat) ≤ 59999 := by exact_mod_cast hleft
  linarith

/-- The rounded quotient has the whole part of the exact one. -/
theorem floor_minutes :
    (round53 (round53 (milliseconds / 1000) / 60)).floor = (milliseconds / 60000 : Nat) := by
  obtain ⟨e, he, hseconds⟩ := exists_rounds_seconds hmin hmax
  have hone := one_le_minutes hmin
  have hlow := secondsLeft_nonneg hmin hmax
  have hhigh := secondsLeft_lt hmin hmax
  unfold secondsLeft at hlow hhigh
  generalize round53 (milliseconds / 1000) = seconds at *
  obtain ⟨e', hquotient⟩ := rounds_round53 (show 0 < seconds / 60 by linarith)
  generalize round53 (seconds / 60) = quotient at *
  -- the unit of the quotient divides a minute
  have hpow : (2 : Rat) ^ (e' + 52) < 2 ^ (52 : Int) := by
    have hfew : milliseconds / 60000 + 1 < 2 ^ 52 := by omega
    have hfew' : ((milliseconds / 60000 : Nat) + 1 : Rat) < 2 ^ (52 : Int) := by
      exact_mod_cast hfew
    have hleast := hquotient.least
    linarith
  rw [zpow_lt_zpow_iff_right₀ one_lt_two] at hpow
  have hge : (((milliseconds / 60000 : Nat) : Int) : Rat) ≤ quotient := by
    refine hquotient.ge (OnGrid.intCast (by omega) _) ?_
    rw [Int.cast_natCast]
    linarith
  have hlt : quotient < ((milliseconds / 60000 + 1 : Nat) : Int) := by
    refine hseconds.quotient_lt hquotient (by omega) ?_
    rw [Int.cast_natCast, Nat.cast_add_one]
    linarith
  exact le_antisymm (Int.lt_add_one_iff.1 (Rat.floor_lt_iff.2 hlt)) (Rat.le_floor_iff.2 hge)

/-- The subtraction of the minutes is exact. -/
theorem round53_secondsLeft : round53 (secondsLeft milliseconds) = secondsLeft milliseconds := by
  obtain ⟨e, he, hround⟩ := exists_rounds_seconds hmin hmax
  have hone := one_le_minutes hmin
  have hmost := hround.le_pow
  have hgrid := onGrid_minutes (show e ≤ 0 by omega) milliseconds
  refine round53_eq_self (hround.onGrid.sub hgrid) (secondsLeft_nonneg hmin hmax) ?_
  rw [secondsLeft]
  linarith

/-- The whole minutes of a duration, and the seconds left with one decimal place. -/
theorem duration_eq : duration milliseconds
    = toString (milliseconds / 60000) ++ " min " ++ fixed 1 (secondsLeft milliseconds) ++ " s" := by
  have hone := one_le_minutes hmin
  have hlow := secondsLeft_nonneg hmin hmax
  have hminutes : round53 (((milliseconds / 60000 : Nat) : Int) * 60)
      = 60 * (milliseconds / 60000 : Nat) := by
    have hexact := round53_natCast (show 60 * (milliseconds / 60000) < 2 ^ 53 by omega)
    push_cast at hexact ⊢
    rwa [mul_comm]
  have hmany : ¬milliseconds < 1000 := by omega
  have hlong : ¬round53 (milliseconds / 1000) < 60 := by
    rw [secondsLeft] at hlow
    exact not_lt.2 (by linarith)
  have hleft := round53_secondsLeft hmin hmax
  unfold secondsLeft at hleft ⊢
  rw [duration, if_neg hmany, round53_natCast hmax]
  simp only [if_neg hlong, floor_minutes hmin hmax, hminutes, hleft]
  rfl

/-- The tenths shown are the nearest ones to the milliseconds left. -/
theorem tenths_near :
    milliseconds % 60000 ≤ 100 * tenths (secondsLeft milliseconds) + 50 ∧
      100 * tenths (secondsLeft milliseconds) ≤ milliseconds % 60000 + 50 := by
  obtain ⟨hlow, hhigh⟩ := abs_le.1 (abs_tenths_sub_le (secondsLeft_nonneg hmin hmax))
  obtain ⟨hlow', hhigh'⟩ := abs_le.1 (abs_secondsLeft_sub_le hmin hmax)
  generalize milliseconds % 60000 = left at *
  generalize tenths (secondsLeft milliseconds) = shown at *
  have hless : (left : Rat) < 100 * shown + 51 := by linarith
  have hmore : (100 * shown : Rat) < left + 51 := by linarith
  have hless' : left < 100 * shown + 51 := by exact_mod_cast hless
  have hmore' : 100 * shown < left + 51 := by exact_mod_cast hmore
  omega

/-- A full minute is not shown below 59.95 seconds, and at 59.95 seconds only if the seconds of the
    duration were rounded up. -/
theorem tenths_secondsLeft_lt_iff : tenths (secondsLeft milliseconds) < 600 ↔
    milliseconds % 60000 < 59950 ∨ milliseconds % 60000 = 59950 ∧
      round53 (milliseconds / 1000) < (milliseconds / 1000 : Rat) := by
  obtain ⟨hlow, hhigh⟩ := tenths_near hmin hmax
  rcases lt_trichotomy (milliseconds % 60000) 59950 with hlt | heq | hgt
  · exact iff_of_true (by omega) (.inl hlt)
  · have hsplit : (milliseconds : Rat) = 60000 * (milliseconds / 60000 : Nat) + 59950 := by
      exact_mod_cast heq ▸ (Nat.div_add_mod milliseconds 60000).symm
    rw [tenths_lt_iff (secondsLeft_nonneg hmin hmax), secondsLeft]
    constructor
    · exact fun h => .inr ⟨heq, by linarith⟩
    · rintro (hless | ⟨-, hdown⟩)
      · omega
      · linarith
  · exact iff_of_false (by omega) (by omega)

end Split

/-- A duration of a minute or more, and of less than `2 ^ 53` milliseconds, is shown by its whole
    minutes and a number of seconds with one decimal place. Its tenths are the nearest to the
    milliseconds that are left behind the minutes, and at most 600. There are less than 60.0 seconds
    exactly if less than 59 950 milliseconds are left, or just so many and the rounding to 53 bits
    went down. -/
theorem duration_minutes (nanoseconds : Nat) (hmin : 60 * 10 ^ 9 ≤ nanoseconds)
    (hmax : nanoseconds < 2 ^ 53 * 10 ^ 6) :
    ∃ shown ≤ 600,
      duration (nanoseconds / 10 ^ 6) = toString (nanoseconds / (60 * 10 ^ 9)) ++ " min "
        ++ (toString (shown / 10) ++ "." ++ toString (shown % 10)) ++ " s" ∧
      let milliseconds : Nat := nanoseconds / 10 ^ 6
      let left : Nat := milliseconds % 60000
      left ≤ 100 * shown + 50 ∧ 100 * shown ≤ left + 50 ∧
      (shown < 600 ↔ left < 59950 ∨
        left = 59950 ∧ round53 (milliseconds / 1000) < (milliseconds / 1000 : Rat)) := by
  have hminutes : nanoseconds / (60 * 10 ^ 9) = nanoseconds / 10 ^ 6 / 60000 := by omega
  have hmin' : 60000 ≤ nanoseconds / 10 ^ 6 := by omega
  have hmax' : nanoseconds / 10 ^ 6 < 2 ^ 53 := by omega
  rw [hminutes]
  generalize nanoseconds / 10 ^ 6 = milliseconds at *
  obtain ⟨hlow, hhigh⟩ := tenths_near hmin' hmax'
  refine ⟨tenths (secondsLeft milliseconds), by omega, ?_, hlow, hhigh,
    tenths_secondsLeft_lt_iff hmin' hmax'⟩
  rw [duration_eq hmin' hmax', fixed_one (secondsLeft_nonneg hmin' hmax')]

/-- Just 59.95 seconds behind two minutes, which are rounded down to 53 bits. -/
theorem duration_minutes_sample :
    60 * 10 ^ 9 ≤ 179950999999 ∧ 179950999999 < 2 ^ 53 * 10 ^ 6 ∧
      duration 179950 = "2 min 59.9 s" := by
  have hmin : 60 * 10 ^ 9 ≤ 179950999999 := by decide
  have hmax : 179950999999 < 2 ^ 53 * 10 ^ 6 := by decide
  obtain ⟨shown, -, hshown, hlow, -, hfull⟩ := duration_minutes 179950999999 hmin hmax
  have hdown : round53 ((179950 : Nat) / 1000) < ((179950 : Nat) / 1000 : Rat) := by decide +kernel
  have hless : shown < 600 := hfull.2 (.inr ⟨rfl, hdown⟩)
  obtain rfl : shown = 599 := by omega
  exact ⟨hmin, hmax, hshown.trans (by decide)⟩

/-- One millisecond below two minutes, the seconds are shown as a full minute. -/
theorem seconds_reach_sixty :
    60 * 10 ^ 9 ≤ 119999 * 10 ^ 6 ∧ 119999 * 10 ^ 6 < 2 ^ 53 * 10 ^ 6 ∧
      duration (119999 * 10 ^ 6 / 10 ^ 6) = "1 min 60.0 s" := by decide +kernel

end ResourceMerge.Text

/-! Sets of positions in a name, from before its first byte to behind its last one. A set is a
    number whose binary digit `i` tells whether the position behind `i` bytes is in it, so that a
    step takes few operations on numbers, however many positions there are. Which bytes a step may
    pass is told by the positions in front of them.

    `testBit_across` and `testBit_along` say what the two kinds of step do to single positions. -/

namespace ResourceMerge.Glob

/-- A set of positions. -/
abbrev Positions := Nat

/-- The set told by one flag for each position. -/
def ofFlags : List Bool → Positions
  | [] => 0
  | flag :: rest => flag.toNat + 2 * ofFlags rest

/-- The flags that are put together before larger numbers come in. -/
def blockSize : Nat := 60

/-- The set told by many flags, put together from blocks of them. -/
def ofBlocks : Nat → List Bool → Positions
  | 0, flags => ofFlags flags
  | n + 1, flags =>
    ofFlags (flags.take blockSize) + ofBlocks n (flags.drop blockSize) <<< blockSize

/-- The positions one byte on, over the bytes behind `places`. -/
def across (places from_ : Positions) : Positions := (from_ &&& places) <<< 1

/-- The positions any number of bytes on, over the bytes behind `places`. Adding the positions to
    the places carries each of them through the places that follow it without a gap. -/
def along (places from_ : Positions) : Positions :=
  from_ ||| (places + (from_ &&& places)) ^^^ places

/-! ### Single positions -/

theorem ofFlags_take_drop (k : Nat) (flags : List Bool) :
    ofFlags flags = ofFlags (flags.take k) + ofFlags (flags.drop k) <<< k := by
  induction k generalizing flags with
  | zero => simp [ofFlags]
  | succ k ih =>
    cases flags with
    | nil => simp [ofFlags]
    | cons flag rest =>
      rw [List.take_succ_cons, List.drop_succ_cons, ofFlags, ofFlags, ih rest]
      rw [Nat.shiftLeft_succ, Nat.mul_add, Nat.add_assoc]

theorem ofBlocks_eq (n : Nat) (flags : List Bool) : ofBlocks n flags = ofFlags flags := by
  induction n generalizing flags with
  | zero => rfl
  | succ n ih => rw [ofBlocks, ih, ← ofFlags_take_drop]

theorem testBit_ofFlags (flags : List Bool) (i : Nat) :
    (ofFlags flags).testBit i = flags.getD i false := by
  induction flags generalizing i with
  | nil => simp [ofFlags]
  | cons flag rest ih =>
    cases i with
    | zero => cases flag <;> simp [ofFlags, Nat.testBit_zero]
    | succ i =>
      have half : (flag.toNat + 2 * ofFlags rest) / 2 = ofFlags rest := by
        have := flag.toNat_le
        omega
      rw [ofFlags, Nat.testBit_succ, half, ih]
      simp

theorem testBit_across_zero (places from_ : Positions) :
    (across places from_).testBit 0 = false := by
  simp [across]

theorem testBit_across (places from_ : Positions) (i : Nat) :
    (across places from_).testBit (i + 1) = (from_.testBit i && places.testBit i) := by
  simp [across]

/-- The positions of `along` where the one before the first byte may be reached by a carry. -/
def alongFrom (carry : Bool) (places from_ : Positions) : Positions :=
  from_ ||| (places + (from_ &&& places) + carry.toNat) ^^^ places

theorem testBit_alongFrom_zero (carry : Bool) (places from_ : Positions) :
    (alongFrom carry places from_).testBit 0 = (from_.testBit 0 || carry) := by
  have both : (from_ &&& places) % 2 = 1 ↔ _ := Nat.and_mod_two_eq_one
  rw [alongFrom, Nat.testBit_or, Nat.testBit_xor]
  simp only [Nat.testBit_zero]
  cases carry <;> simp <;> grind

theorem alongFrom_half (carry : Bool) (places from_ : Positions) :
    alongFrom carry places from_ / 2 =
      alongFrom (places.testBit 0 && (from_.testBit 0 || carry)) (places / 2) (from_ / 2) := by
  have both := Nat.and_mod_two_pow (n := 1) (a := from_) (b := places)
  have half : (from_ &&& places) / 2 = from_ / 2 &&& places / 2 := Nat.and_div_two
  simp only [alongFrom, Nat.or_div_two, Nat.xor_div_two, ← half, Nat.testBit_zero]
  congr 2
  rcases Nat.mod_two_eq_zero_or_one places with hp | hp <;>
    rcases Nat.mod_two_eq_zero_or_one from_ with hf | hf <;>
      simp only [Nat.pow_one, hp, hf, Nat.and_self, Nat.and_zero, Nat.zero_and] at both <;>
        cases carry <;> simp [hp, hf] <;> omega

theorem testBit_alongFrom (carry : Bool) (places from_ : Positions) (i : Nat) :
    (alongFrom carry places from_).testBit (i + 1) =
      (from_.testBit (i + 1) || places.testBit i && (alongFrom carry places from_).testBit i) := by
  induction i generalizing carry places from_ with
  | zero =>
    rw [Nat.testBit_succ, alongFrom_half, testBit_alongFrom_zero, testBit_alongFrom_zero]
    simp [Nat.testBit_succ]
  | succ i ih =>
    rw [Nat.testBit_succ, alongFrom_half, ih, ← alongFrom_half]
    simp only [Nat.testBit_succ]

theorem along_eq_alongFrom (places from_ : Positions) :
    along places from_ = alongFrom false places from_ := rfl

/-- A position is reached if it is given, or if the one before it is reached and a step leads on. -/
theorem testBit_along (places from_ : Positions) (i : Nat) :
    (along places from_).testBit (i + 1) =
      (from_.testBit (i + 1) || places.testBit i && (along places from_).testBit i) :=
  testBit_alongFrom false places from_ i

theorem testBit_along_zero (places from_ : Positions) :
    (along places from_).testBit 0 = from_.testBit 0 := by
  rw [along_eq_alongFrom, testBit_alongFrom_zero, Bool.or_false]

end ResourceMerge.Glob

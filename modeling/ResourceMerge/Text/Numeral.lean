/-! Numerals as messages and listings write them: lower-case hexadecimal, and both bases padded with
    leading zeros to a least width (a longer numeral is never cut). A 32-bit integer shown in base
    sixteen shows its bits, so `-1` is `ffffffff`. -/

namespace ResourceMerge.Text

/-- The digits `ds` behind enough zeros to make at least `width` characters. -/
def padZeros (width : Nat) (ds : List Char) : String :=
  String.ofList (List.replicate (width - ds.length) '0' ++ ds)

/-- Hexadecimal numeral of `n`. -/
def hex (n : Nat) : String := String.ofList (Nat.toDigits 16 n)

/-- Hexadecimal numeral of `n` with at least `width` digits. -/
def hexPadded (width n : Nat) : String := padZeros width (Nat.toDigits 16 n)

/-- Decimal numeral of `n` with at least `width` digits. -/
def decimalPadded (width n : Nat) : String := padZeros width (Nat.toDigits 10 n)

/-- Decimal numeral of a signed integer. -/
def signed (v : Int32) : String := toString v.toInt

/-- The bits of a signed integer as a hexadecimal numeral. -/
def bits (v : Int32) : String := hex v.toUInt32.toNat

end ResourceMerge.Text

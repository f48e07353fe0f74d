/-! Fixed-width words as bytes, most significant byte first, and the words that a run of bytes
    spells. A run of `n` bytes spells the number with those digits in base 256, so reading is one
    fold and the width of the result is the reader's business. -/

namespace ResourceMerge.Binary

/-- The two bytes of a 16-bit word. -/
def u16 (v : UInt16) : List UInt8 := [(v >>> 8).toUInt8, v.toUInt8]

/-- The four bytes of a 32-bit word. -/
def u32 (v : UInt32) : List UInt8 :=
  [(v >>> 24).toUInt8, (v >>> 16).toUInt8, (v >>> 8).toUInt8, v.toUInt8]

/-- The four bytes of a signed 32-bit word, in two's complement. -/
def i32 (v : Int32) : List UInt8 := u32 v.toUInt32

/-- The eight bytes of a 64-bit word. -/
def u64 (v : UInt64) : List UInt8 := u32 (v >>> 32).toUInt32 ++ u32 v.toUInt32

/-- The number a run of bytes spells in base 256. -/
def number (bytes : List UInt8) : Nat := bytes.foldl (fun n b => n * 256 + b.toNat) 0

/-- The bytes of a 16-bit word spell it. -/
theorem number_u16 (v : UInt16) : number (u16 v) = v.toNat := by
  have := v.toNat_lt
  simp [number, u16, Nat.shiftRight_eq_div_pow]
  omega

/-- The bytes of a 32-bit word spell it. -/
theorem number_u32 (v : UInt32) : number (u32 v) = v.toNat := by
  have := v.toNat_lt
  simp [number, u32, Nat.shiftRight_eq_div_pow]
  omega

/-- The bytes of a 64-bit word spell it. -/
theorem number_u64 (v : UInt64) : number (u64 v) = v.toNat := by
  have := v.toNat_lt
  simp [number, u64, u32, Nat.shiftRight_eq_div_pow]
  omega

end ResourceMerge.Binary

import ResourceMerge.Binary.BigEndian
import ResourceMerge.Error

/-! Sequential reading of a byte string. A cursor holds the bytes not read yet and how many were
    read. A read of `n` bytes either takes exactly the next `n` and moves past them, or reports how
    many were asked for and where, and leaves the cursor as it was. Every other read is one such
    read with the bytes interpreted, so a reader that went wrong can still be asked for less. -/

namespace ResourceMerge.Binary

/-- A place in a byte string. -/
structure Cursor where
  rest : List UInt8
  offset : Nat

/-- The place before the first byte. -/
def Cursor.start (bytes : List UInt8) : Cursor := ⟨bytes, 0⟩

/-- A reading that moves a cursor and may fail. -/
abbrev Reader := EStateM Error Cursor

namespace Reader

/-- The next `n` bytes. -/
def take (n : Nat) : Reader (List UInt8) := fun c =>
  let bytes := c.rest.take n
  if bytes.length < n then .error (.endOfInput n c.offset) c
  else .ok bytes ⟨c.rest.drop n, c.offset + n⟩

/-- Bytes that are there are taken. -/
theorem take_of_le {n : Nat} {c : Cursor} (h : n ≤ c.rest.length) :
    take n c = .ok (c.rest.take n) ⟨c.rest.drop n, c.offset + n⟩ := by
  simp [take, Nat.min_eq_left h]

/-- Asking for more than there is leaves the cursor where it was. -/
theorem take_of_lt {n : Nat} {c : Cursor} (h : c.rest.length < n) :
    take n c = .error (.endOfInput n c.offset) c := by
  have : min n c.rest.length < n := by omega
  simp [take, this]

/-- Steps over `n` bytes. -/
def skip (n : Nat) : Reader Unit := do
  let _ ← take n

/-- An unsigned byte. -/
def u8 : Reader UInt8 := return UInt8.ofNat (number (← take 1))

/-- A signed byte. -/
def i8 : Reader Int8 := return (← u8).toInt8

/-- An unsigned 16-bit word. -/
def u16 : Reader UInt16 := return UInt16.ofNat (number (← take 2))

/-- A signed 16-bit word. -/
def i16 : Reader Int16 := return (← u16).toInt16

/-- An unsigned 32-bit word. -/
def u32 : Reader UInt32 := return UInt32.ofNat (number (← take 4))

/-- A signed 32-bit word. -/
def i32 : Reader Int32 := return (← u32).toInt32

/-- An unsigned 64-bit word. -/
def u64 : Reader UInt64 := return UInt64.ofNat (number (← take 8))

/-- Gives up with an error. -/
def fail {α : Type} (e : Error) : Reader α := throw e

/-- The result of something that reads nothing but may fail. -/
def ofExcept {α : Type} : Except Error α → Reader α
  | .ok a => pure a
  | .error e => throw e

/-- The result of `r`, `n` times over, behind those of `done` (kept in reverse). -/
def repeatOnto {α : Type} (r : Reader α) (done : List α) : Nat → Reader (List α)
  | 0 => pure done.reverse
  | n + 1 => do
    let a ← r
    repeatOnto r (a :: done) n

/-- The results of reading `r` exactly `n` times. -/
def times {α : Type} (n : Nat) (r : Reader α) : Reader (List α) := repeatOnto r [] n

/-- Reads a byte string from its start; what is left behind does not matter. -/
def read {α : Type} (r : Reader α) (bytes : List UInt8) : Except Error α :=
  match r (.start bytes) with
  | .ok a _ => .ok a
  | .error e _ => .error e

end Reader

end ResourceMerge.Binary

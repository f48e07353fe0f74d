import Mathlib.Algebra.Group.Int.Defs
import Mathlib.Algebra.Group.Nat.Defs
import ResourceMerge.Proofs.Reading

/-! Values of several kinds in one byte string. A writer puts the bytes of each value behind those
    it has; a reader has to know the kinds of the values, in their order, and of a run of bytes its
    length. Each kind is read from its own bytes whatever follows, so a reader that is told the
    kinds goes through any sequence value by value.

    The bytes of an unsigned word may be read as a signed one, too. Of the two numbers with these
    bits, this is the one below half of the range. -/

namespace ResourceMerge.Binary

/-- A value that is written: a word of some width, or a run of bytes. -/
inductive Datum where
  | u8 (v : UInt8)
  | u16 (v : UInt16)
  | u32 (v : UInt32)
  | i32 (v : Int32)
  | u64 (v : UInt64)
  | bytes (run : List UInt8)
  deriving DecidableEq

/-- What has to be known of a value to read it. -/
inductive Kind where
  | u8
  | u16
  | u32
  | i32
  | u64
  | bytes (size : Nat)
  deriving DecidableEq

namespace Datum

/-- The kind of a value. -/
def kind : Datum → Kind
  | .u8 _ => .u8
  | .u16 _ => .u16
  | .u32 _ => .u32
  | .i32 _ => .i32
  | .u64 _ => .u64
  | .bytes run => .bytes run.length

/-- The bytes of a value. -/
def written : Datum → List UInt8
  | .u8 v => [v]
  | .u16 v => Binary.u16 v
  | .u32 v => Binary.u32 v
  | .i32 v => Binary.i32 v
  | .u64 v => Binary.u64 v
  | .bytes run => run

/-- Writes a value behind what a buffer holds. -/
def writeTo (buffer : List UInt8) (datum : Datum) : List UInt8 := buffer ++ datum.written

end Datum

/-- Writes values behind what a buffer holds, one after the other. -/
def writeAll (buffer : List UInt8) (data : List Datum) : List UInt8 :=
  data.foldl Datum.writeTo buffer

/-- Reads a value of a kind. -/
def Kind.read : Kind → Reader Datum
  | .u8 => return .u8 (← Reader.u8)
  | .u16 => return .u16 (← Reader.u16)
  | .u32 => return .u32 (← Reader.u32)
  | .i32 => return .i32 (← Reader.i32)
  | .u64 => return .u64 (← Reader.u64)
  | .bytes size => return .bytes (← Reader.take size)

/-- The place in a byte string behind so many bytes. -/
def Cursor.behind (bytes : List UInt8) (offset : Nat) : Cursor := ⟨bytes.drop offset, offset⟩

/-- The integer whose lowest bits, so many of them, are those of a number. -/
def signed (bits n : Nat) : Int := if n < 2 ^ (bits - 1) then n else n - 2 ^ bits

theorem writeAll_eq : ∀ (data : List Datum) (buffer : List UInt8),
    writeAll buffer data = buffer ++ data.flatMap Datum.written
  | [], buffer => (List.append_nil buffer).symm
  | datum :: data, buffer => by
    rw [writeAll, List.foldl_cons, ← writeAll, writeAll_eq data, Datum.writeTo, List.flatMap_cons,
      List.append_assoc]

/-- Bytes that a reader reads are read wherever a buffer holds them. -/
theorem Reads.inside {α : Type} {r : Reader α} {bytes : List UInt8} {a : α} (h : Reads r bytes a)
    (before rest : List UInt8) :
    r (.behind (before ++ bytes ++ rest) before.length)
      = .ok a (.behind (before ++ bytes ++ rest) (before ++ bytes).length) := by
  have hstart : Cursor.behind (before ++ bytes ++ rest) before.length
      = ⟨bytes ++ rest, before.length⟩ := by
    rw [Cursor.behind, List.append_assoc, List.drop_left]
  have hend : Cursor.behind (before ++ bytes ++ rest) (before ++ bytes).length
      = ⟨rest, (before ++ bytes).length⟩ := by
    rw [Cursor.behind, List.drop_left]
  rw [hstart, hend, h rest, List.length_append]

/-- Each kind is read from the bytes of its values. -/
theorem read_kind : ∀ datum : Datum, Reads datum.kind.read datum.written datum
  | .u8 v => (Reads.u8 v).map Datum.u8
  | .u16 v => (Reads.u16 v).map Datum.u16
  | .u32 v => (Reads.u32 v).map Datum.u32
  | .i32 v => (Reads.i32 v).map Datum.i32
  | .u64 v => (Reads.u64 v).map Datum.u64
  | .bytes run => (Reads.take run).map Datum.bytes

theorem read_kinds : ∀ data : List Datum,
    Reads ((data.map Datum.kind).mapM Kind.read) (data.flatMap Datum.written) data
  | [] => .pure []
  | datum :: data => by
    rw [List.map_cons, List.mapM_cons, List.flatMap_cons]
    exact (read_kind datum).bind ((read_kinds data).map (datum :: ·))

/-- Of the two numbers with the same bits, the sign chooses the one below half of the range. -/
theorem toInt_eq_signed {bits : Nat} (v : BitVec bits) : v.toInt = signed bits v.toNat := by
  rw [BitVec.toInt_eq_toNat_cond, signed]
  cases bits with
  | zero => simp [BitVec.of_length_zero]
  | succ bits =>
    have hhalf : 2 * v.toNat < 2 ^ (bits + 1) ↔ v.toNat < 2 ^ (bits + 1 - 1) := by
      rw [Nat.pow_succ, Nat.add_sub_cancel]
      omega
    simp only [hhalf]
    split
    · rfl
    · rw [Int.natCast_pow]
      rfl

theorem toInt_toInt8 (b : UInt8) : b.toInt8.toInt = signed 8 b.toNat := toInt_eq_signed b.toBitVec

theorem toInt_toInt16 (v : UInt16) : v.toInt16.toInt = signed 16 v.toNat :=
  toInt_eq_signed v.toBitVec

theorem toInt_toInt32 (v : UInt32) : v.toInt32.toInt = signed 32 v.toNat :=
  toInt_eq_signed v.toBitVec

/-- Values of any kinds, written behind whatever a buffer held and followed by anything, are read
    back by their kinds, and the reader then stands right behind them. The bytes of a byte or of a
    16-bit word are also read as the signed number with the same bits. -/
theorem data_read_back (before rest : List UInt8) :
    (∀ data : List Datum,
      (data.map Datum.kind).mapM Kind.read (.behind (writeAll before data ++ rest) before.length)
        = .ok data (.behind (writeAll before data ++ rest) (writeAll before data).length)) ∧
    (∀ b : UInt8, ∃ v : Int8, v.toInt = signed 8 b.toNat ∧
      Reader.i8 (.behind (writeAll before [.u8 b] ++ rest) before.length)
        = .ok v (.behind (writeAll before [.u8 b] ++ rest) (before.length + 1))) ∧
    (∀ w : UInt16, ∃ v : Int16, v.toInt = signed 16 w.toNat ∧
      Reader.i16 (.behind (writeAll before [.u16 w] ++ rest) before.length)
        = .ok v (.behind (writeAll before [.u16 w] ++ rest) (before.length + 2))) := by
  refine ⟨fun data => ?_, fun b => ⟨b.toInt8, toInt_toInt8 b, ?_⟩,
    fun w => ⟨w.toInt16, toInt_toInt16 w, ?_⟩⟩
  · rw [writeAll_eq]
    exact (read_kinds data).inside before rest
  · have hread := ((Reads.u8 b).map UInt8.toInt8).inside before rest
    rwa [List.length_append] at hread
  · have hread := ((Reads.u16 w).map UInt16.toInt16).inside before rest
    rwa [List.length_append] at hread

/-- A word, a magic number, a negative number and a byte, read as they were written. -/
example : (do return (← Reader.u16, ← Reader.u32, ← Reader.i32, ← Reader.i8) : Reader _).read
    (writeAll [] [.u16 0xbeef, .u32 0xcafebabe, .i32 (-42), .u8 0x80])
      = .ok (0xbeef, 0xcafebabe, -42, -128) := by decide

end ResourceMerge.Binary

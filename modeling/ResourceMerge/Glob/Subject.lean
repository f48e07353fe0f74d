import ResourceMerge.Glob.Positions
import ResourceMerge.Text.Utf8

/-! A name as matching reads it: its length, and for each byte of it the positions in front of that
    byte. A test of bytes then costs as much as the name has different bytes, not as much as it is
    long. `testBit_before` says that nothing else is asked of a name. -/

namespace ResourceMerge.Glob

/-- The slash. -/
def slash : UInt8 := 0x2F

/-- A name as matching reads it. -/
structure Subject where
  length : Nat
  /-- each byte of the name once, and the positions in front of it -/
  places : List (UInt8 × Positions)
  /-- the positions in front of a slash -/
  slashes : Positions
  /-- the positions in front of any other byte -/
  others : Positions

namespace Subject

/-- The positions of a name in front of bytes that satisfy `p`. -/
def positionsOf (name : List UInt8) (p : UInt8 → Bool) : Positions :=
  ofBlocks (name.length / blockSize) (name.map p)

/-- The reading of a name. -/
def ofName (name : List UInt8) : Subject where
  length := name.length
  places := name.eraseDups.map fun b => (b, positionsOf name (· == b))
  slashes := positionsOf name (· == slash)
  others := positionsOf name (· != slash)

/-- The positions in front of bytes that satisfy `p`. -/
def before (subject : Subject) (p : UInt8 → Bool) : Positions :=
  subject.places.foldl (fun all (b, here) => if p b then all ||| here else all) 0

/-- The positions in front of any byte. -/
def all (subject : Subject) : Positions := subject.slashes ||| subject.others

theorem testBit_positionsOf (name : List UInt8) (p : UInt8 → Bool) (i : Nat) :
    (positionsOf name p).testBit i = name[i]?.any p := by
  rw [positionsOf, ofBlocks_eq, testBit_ofFlags, List.getD_eq_getElem?_getD, List.getElem?_map]
  cases name[i]? <;> rfl

theorem testBit_foldl (places : List (UInt8 × Positions)) (p : UInt8 → Bool) (seen : Positions)
    (i : Nat) :
    (places.foldl (fun all (b, here) => if p b then all ||| here else all) seen).testBit i =
      (seen.testBit i || places.any fun (b, here) => p b && here.testBit i) := by
  induction places generalizing seen with
  | nil => simp
  | cons place rest ih =>
    rw [List.foldl_cons, ih]
    cases h : p place.1 <;> simp [h, Bool.or_assoc]

/-- A position is in front of a byte that satisfies `p` if the name says so. -/
theorem testBit_before (name : List UInt8) (p : UInt8 → Bool) (i : Nat) :
    ((ofName name).before p).testBit i = name[i]?.any p := by
  rw [before, testBit_foldl, ofName]
  simp only [Nat.zero_testBit, Bool.false_or, List.any_map, Function.comp_def, testBit_positionsOf]
  cases h : name[i]? with
  | none => simp
  | some b =>
    have member : b ∈ name.eraseDups := List.mem_eraseDups.2 (List.mem_of_getElem? h)
    rw [Bool.eq_iff_iff]
    simp only [Option.any_some, List.any_eq_true, Bool.and_eq_true, beq_iff_eq]
    exact ⟨fun ⟨x, _, hx, e⟩ => e ▸ hx, fun hb => ⟨b, member, hb, rfl⟩⟩

variable {name : List UInt8} (i : Nat)

theorem testBit_slashes : (ofName name).slashes.testBit i = name[i]?.any (· == slash) :=
  testBit_positionsOf name _ i

theorem testBit_others : (ofName name).others.testBit i = name[i]?.any (· != slash) :=
  testBit_positionsOf name _ i

/-- A position is in front of any byte if the name goes on there. -/
theorem testBit_all : (ofName name).all.testBit i = name[i]?.any fun _ => true := by
  rw [all, Nat.testBit_or, testBit_slashes, testBit_others]
  cases name[i]? with
  | none => rfl
  | some b => simp [bne]

end Subject

end ResourceMerge.Glob

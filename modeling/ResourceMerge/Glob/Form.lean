import ResourceMerge.Glob.Pattern

/-! The expression of a glob in its simplest form, from which its automaton is built. Characters
    side by side are one text; a sequence inside a sequence dissolves, and so does a choice inside a
    choice. A set of one character is a text, and a choice between single characters, or between
    sets, is a set. Where all branches of a choice begin with the same parts, these stand in front
    of it. -/

namespace ResourceMerge.Glob

/-- An expression in its simplest form. The empty sequence is the form of nothing. -/
inductive Form where
  /-- characters side by side, the last first -/
  | text (reversed : List Char)
  /-- one byte in one of several ranges -/
  | byteSet (ranges : List (Nat × Nat))
  /-- one of several characters, not all of one byte, in their order -/
  | charSet (chars : List Char)
  /-- any number of times -/
  | star (form : Form)
  /-- once or not at all -/
  | optional (form : Form)
  /-- one behind the other -/
  | sequence (parts : List Form)
  /-- one of several -/
  | choice (branches : List Form)

/-! ### Sets -/

/-- The last byte. -/
def lastByte : Nat := 255

/-- Joins ranges that touch, where they are in the order of their beginnings, behind those of `done`
    (kept in reverse). -/
def joinOnto (done : List (Nat × Nat)) : List (Nat × Nat) → List (Nat × Nat)
  | [] => done.reverse
  | (low, high) :: rest =>
    match done with
    | (start, stop) :: before =>
      if low ≤ stop + 1 then joinOnto ((start, max stop high) :: before) rest
      else joinOnto ((low, high) :: done) rest
    | [] => joinOnto [(low, high)] rest

/-- The same set with as few ranges as possible, in their order. -/
def joined (ranges : List (Nat × Nat)) : List (Nat × Nat) :=
  joinOnto [] (ranges.mergeSort fun a b => a.1 ≤ b.1)

/-- The bytes from `next` on outside of ranges that are in order. -/
def outside (next : Nat) : List (Nat × Nat) → List (Nat × Nat)
  | [] => if next ≤ lastByte then [(next, lastByte)] else []
  | (low, high) :: rest =>
    if next < low then (next, low - 1) :: outside (high + 1) rest else outside (high + 1) rest

/-- The bytes of a range of characters, as `inRange` has them. -/
def byteRanges (range : Char × Char) : List (Nat × Nat) :=
  let alone := fun (b : UInt8) => (b.toNat, b.toNat)
  let low := String.utf8EncodeChar range.1
  let high := String.utf8EncodeChar range.2
  if range.1 = range.2 then low.map alone
  else ((low.getLastD 0).toNat, (high.headD 0).toNat) :: (low ++ high).map alone

/-- Has the character one byte? -/
def isNarrow (c : Char) : Bool := c.val < 0x80

namespace Form

/-- Any byte. -/
def any : Form := .byteSet [(0, lastByte)]

/-- Any byte but the slash. -/
def other : Form := .byteSet (outside 0 [(slash.toNat, slash.toNat)])

/-- The slash. -/
def slashText : Form := .text ['/']

/-- Nothing. -/
def nothing : Form := .sequence []

/-- The form of a set of bytes. -/
def ofBytes (ranges : List (Nat × Nat)) : Form :=
  match joined ranges with
  | [(low, high)] =>
    if low = high && low < 0x80 then .text [Char.ofNat low] else .byteSet [(low, high)]
  | ranges => .byteSet ranges

/-- The form of a set of characters. -/
def ofChars (chars : List Char) : Form :=
  match (chars.mergeSort fun a b => a ≤ b).eraseReps with
  | [c] => .text [c]
  | chars =>
    if chars.all isNarrow then ofBytes (chars.map fun c => (c.toNat, c.toNat)) else .charSet chars

/-- The character, if the form is one. -/
def char? : Form → Option Char
  | .text [c] => some c
  | _ => none

/-- The bytes, if the form is a set of them. -/
def bytes? : Form → Option (List (Nat × Nat))
  | .byteSet ranges => some ranges
  | _ => none

/-- The characters, if the form is a set of them; bytes stand for characters of one byte only. -/
def chars? : Form → Option (List Char)
  | .charSet chars => some chars
  | .byteSet ranges =>
    if ranges.all fun range => range.2 < 0x80 then
      some (ranges.flatMap fun (low, high) => (List.range' low (high + 1 - low)).map Char.ofNat)
    else none
  | _ => none

/-- The set that a choice between characters, or between sets, comes to. -/
def set? (branches : List Form) : Option Form :=
  match branches.mapM char?, branches.mapM bytes?, branches.mapM chars? with
  | some chars, _, _ => some (ofChars chars)
  | none, some ranges, _ => some (ofBytes ranges.flatten)
  | none, none, some chars => some (ofChars chars.flatten)
  | none, none, none => none

/-! ### Sequences -/

/-- Puts one more part behind others (kept in reverse). -/
def pushPart (before : List Form) (part : Form) : List Form :=
  match part, before with
  | .text chars, .text earlier :: rest => .text (chars ++ earlier) :: rest
  | part, before => part :: before

/-- Puts a form behind others (kept in reverse); of a sequence, its parts. -/
def push (before : List Form) (form : Form) : List Form :=
  match form with
  | .sequence parts => parts.foldl pushPart before
  | form => pushPart before form

/-- The form of parts (kept in reverse). -/
def ofParts (reversed : List Form) : Form :=
  match reversed with
  | [part] => part
  | reversed => .sequence reversed.reverse

/-! ### Choices -/

mutual

/-- Are two forms the same? -/
def same : Form → Form → Bool
  | .text a, .text b => a == b
  | .byteSet a, .byteSet b => a == b
  | .charSet a, .charSet b => a == b
  | .star a, .star b => same a b
  | .optional a, .optional b => same a b
  | .sequence a, .sequence b => sameAll a b
  | .choice a, .choice b => sameAll a b
  | _, _ => false

/-- Are the forms of two lists the same? -/
def sameAll : List Form → List Form → Bool
  | [], [] => true
  | a :: as, b :: bs => same a b && sameAll as bs
  | _, _ => false

end

/-- The parts of a sequence that is not empty. -/
def parts? : Form → Option (List Form)
  | .sequence (part :: parts) => some (part :: parts)
  | _ => none

/-- The parts with which both of two sequences begin. -/
def commonParts (a b : List Form) : List Form :=
  ((a.zip b).takeWhile fun (x, y) => same x y).map (·.1)

/-- The branches that a form adds to a choice. -/
def branches : Form → List Form
  | .choice branches => branches
  | form => [form]

/-- The form of a choice. A choice behind common parts may have such parts again, though no more
    often than expressions nest: `depth` is a bound on that. -/
def ofChoice (depth : Nat) (forms : List Form) : Form :=
  match forms.flatMap branches with
  | [] => nothing
  | [form] => form
  | branches =>
    match set? branches, depth, branches.mapM parts? with
    | some form, _, _ => form
    | none, depth + 1, some (first :: rest) =>
      match rest.foldl commonParts first with
      | [] => .choice branches
      | common =>
        let rests := (first :: rest).map fun parts =>
          ofParts ((parts.drop common.length).foldl pushPart [])
        ofParts (push (common.foldl pushPart []) (ofChoice depth rests))
    | none, _, _ => .choice branches

end Form

/-! ### Tokens -/

mutual

/-- The form of a token, where choices are `depth` levels deep at most. -/
def Token.form (depth : Nat) : Token → Form
  | .literal c => .text [c]
  | .oneByte => .other
  | .anyBytes => .star .other
  | .leadingComponents =>
    .choice [.optional .slashText, .sequence [.star .any, .slashText]]
  | .trailingComponents => .sequence [.slashText, .star .any]
  | .innerComponents =>
    .choice [.slashText, .sequence [.slashText, .star .any, .slashText]]
  | .byteClass negated ranges =>
    let bytes := ranges.flatMap byteRanges
    .ofBytes (if negated then outside 0 (joined bytes) else bytes)
  | .oneOf branches => .ofChoice depth (choiceForms depth [] branches)

/-- The form of a sequence behind parts (kept in reverse). -/
def form (depth : Nat) (before : List Form) : List Token → Form
  | [] => .ofParts before
  | token :: rest => form depth (Form.push before (token.form depth)) rest

/-- The forms of branches, behind others (kept in reverse); those of nothing are left out. -/
def choiceForms (depth : Nat) (before : List Form) : List (List Token) → List Form
  | [] => before.reverse
  | branch :: rest =>
    match form depth [] branch with
    | .sequence [] => choiceForms depth before rest
    | form => choiceForms depth (form :: before) rest

end

end ResourceMerge.Glob

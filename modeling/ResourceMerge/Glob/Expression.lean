import ResourceMerge.Glob.Pattern
import ResourceMerge.Text.Numeral

/-! Globs as regular expressions. A glob that no comparison of texts settles is spelled as an
    expression over bytes, and groups of alternatives become groups of the expression.

    Levels are counted where the expression has more than one part: a sequence of several parts, a
    choice between several branches, a group, a repetition and a set of bytes are one level each,
    and so is the list of a set with several entries. Branches that are empty leave no part
    behind. -/

namespace ResourceMerge.Glob

/-- The size of an expression: its parts side by side, and the levels below them. -/
structure Extent where
  parts : Nat
  levels : Nat

/-- The number of bytes of a character. -/
def width (c : Char) : Nat := (String.utf8EncodeChar c).length

/-- The entries of a set that one range makes: a range between two bytes, and the other bytes of its
    characters. -/
def entries (range : Char × Char) : Nat :=
  if range.1 = range.2 then width range.1 else width range.1 + width range.2 - 1

/-- No part at all. -/
def Extent.none : Extent := ⟨0, 0⟩

/-- Two sequences side by side. -/
def Extent.beside (a b : Extent) : Extent := ⟨a.parts + b.parts, max a.levels b.levels⟩

/-- The levels of parts, with one more that holds them together where there are several. -/
def Extent.joined (e : Extent) : Nat := if e.parts > 1 then e.levels + 1 else e.levels

mutual

/-- The extent of a token. -/
def Token.extent : Token → Extent
  | .literal c => ⟨width c, 0⟩
  | .oneByte => ⟨1, 1⟩
  | .anyBytes => ⟨1, 2⟩
  | .leadingComponents => ⟨1, 4⟩
  | .trailingComponents => ⟨2, 1⟩
  | .innerComponents => ⟨1, 4⟩
  | .byteClass _ ranges => ⟨1, if (ranges.map entries).sum > 1 then 2 else 1⟩
  | .oneOf branches =>
    let choice := choiceExtent .none branches
    if choice.parts = 0 then .none else ⟨1, choice.joined + 1⟩

/-- The extent of a sequence behind one of a given extent. -/
def extent (before : Extent) : List Token → Extent
  | [] => before
  | token :: rest => extent (before.beside token.extent) rest

/-- The extent of the branches of a choice that are not empty, one part each, behind others. -/
def choiceExtent (before : Extent) : List (List Token) → Extent
  | [] => before
  | branch :: rest =>
    let e := extent .none branch
    if e.parts = 0 then choiceExtent before rest
    else choiceExtent (before.beside ⟨1, e.joined⟩) rest

end

/-- The levels of the whole expression, which is a sequence between its two ends. -/
def levels (tokens : List Token) : Nat := (extent .none tokens).levels + 1

/-! ### Spelling -/

/-- Characters that have a meaning of their own in an expression. -/
def operators : List Char :=
  ['\\', '.', '+', '*', '?', '(', ')', '|', '[', ']', '\x7b', '\x7d', '^', '$', '#', '&', '-', '~']

/-- A byte in an expression. -/
def byteText (b : UInt8) : String :=
  if b < 0x80 then
    let c := Char.ofNat b.toNat
    if operators.contains c then "\\" ++ String.singleton c else String.singleton c
  else "\\x" ++ Text.hexPadded 2 b.toNat

/-- A character in an expression. -/
def charText (c : Char) : String := String.join ((String.utf8EncodeChar c).map byteText)

/-- A range of a set. -/
def rangeText (range : Char × Char) : String :=
  if range.1 = range.2 then charText range.1 else charText range.1 ++ "-" ++ charText range.2

mutual

/-- The spelling of a token. -/
def Token.text : Token → String
  | .literal c => charText c
  | .oneByte => "[^/]"
  | .anyBytes => "[^/]*"
  | .leadingComponents => "(?:/?|.*/)"
  | .trailingComponents => "/.*"
  | .innerComponents => "(?:/|/.*/)"
  | .byteClass negated ranges =>
    (if negated then "[^" else "[") ++ String.join (ranges.map rangeText) ++ "]"
  | .oneOf branches =>
    match choiceTexts [] branches with
    | [] => ""
    | texts => "(?:" ++ String.intercalate "|" texts ++ ")"

/-- The spelling of a sequence behind a text. -/
def sequenceText (before : String) : List Token → String
  | [] => before
  | token :: rest => sequenceText (before ++ token.text) rest

/-- The spellings of the branches that are not empty, behind others (kept in reverse). -/
def choiceTexts (before : List String) : List (List Token) → List String
  | [] => before.reverse
  | branch :: rest =>
    let text := sequenceText "" branch
    choiceTexts (if text.isEmpty then before else text :: before) rest

end

/-- The expression of a glob. -/
def expression (tokens : List Token) : String := sequenceText "(?-u)^" tokens ++ "$"

end ResourceMerge.Glob

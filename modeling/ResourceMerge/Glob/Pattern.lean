import ResourceMerge.Glob.Subject

/-! Globs and what they match. A glob is a sequence of tokens over the bytes of a name; the slash
    separates the components of a name, and only the tokens made for it, and classes, match one.

    Matching follows all ways through the glob at once: each token maps the positions before it to
    those behind it. Where no position is left, the rest of the glob is not tried. -/

namespace ResourceMerge.Glob

/-- One token of a glob. -/
inductive Token where
  /-- the bytes of a character -/
  | literal (c : Char)
  /-- one byte other than the slash -/
  | oneByte
  /-- any bytes other than the slash -/
  | anyBytes
  /-- nothing, a slash, or anything up to a slash -/
  | leadingComponents
  /-- a slash and anything behind it -/
  | trailingComponents
  /-- a slash, or anything between two slashes -/
  | innerComponents
  /-- one byte in a set, or outside of it -/
  | byteClass (negated : Bool) (ranges : List (Char × Char))
  /-- one of several sequences; those that cannot match a byte are left out -/
  | oneOf (branches : List (List Token))

/-- Does the byte lie between two others? -/
def inByteRange (low high b : UInt8) : Bool := low ≤ b && b ≤ high

/-- Is the byte in the set that a range of characters stands for? The range runs from the last byte
    of its first character to the first byte of its last one; the other bytes stand alone. -/
def inRange (range : Char × Char) (b : UInt8) : Bool :=
  let low := String.utf8EncodeChar range.1
  let high := String.utf8EncodeChar range.2
  if range.1 = range.2 then low.contains b
  else low.contains b || high.contains b || inByteRange (low.getLastD 0) (high.headD 0) b

/-- Is the byte in a class? -/
def inClass (negated : Bool) (ranges : List (Char × Char)) (b : UInt8) : Bool :=
  (ranges.any fun range => inRange range b) != negated

/-- Positions behind any bytes and a slash. -/
def pastSlash (subject : Subject) (from_ : Positions) : Positions :=
  across subject.slashes (along subject.all from_)

mutual

/-- Can the token match nothing but the empty sequence, because every branch of it is empty? -/
def Token.isVoid : Token → Bool
  | .oneOf branches => allVoid branches
  | _ => false

/-- Is every token of a sequence void? -/
def isVoid : List Token → Bool
  | [] => true
  | token :: rest => token.isVoid && isVoid rest

/-- Is every branch void? -/
def allVoid : List (List Token) → Bool
  | [] => true
  | branch :: rest => isVoid branch && allVoid rest

end

mutual

/-- Positions behind a token. -/
def Token.behind (subject : Subject) : Token → Positions → Positions
  | .literal c, from_ =>
    (String.utf8EncodeChar c).foldl (fun at_ b => across (subject.before (· == b)) at_) from_
  | .oneByte, from_ => across subject.others from_
  | .anyBytes, from_ => along subject.others from_
  | .leadingComponents, from_ => from_ ||| pastSlash subject from_
  | .trailingComponents, from_ => along subject.all (across subject.slashes from_)
  | .innerComponents, from_ =>
    let first := across subject.slashes from_
    first ||| pastSlash subject first
  | .byteClass negated ranges, from_ => across (subject.before (inClass negated ranges)) from_
  | .oneOf branches, from_ =>
    if allVoid branches then from_ else behindAny subject branches 0 from_

/-- Positions behind a sequence of tokens. -/
def behind (subject : Subject) : List Token → Positions → Positions
  | [], from_ => from_
  | token :: rest, from_ =>
    if from_ = 0 then 0 else behind subject rest (token.behind subject from_)

/-- Positions behind any of several sequences, the void ones left out, and those found before. -/
def behindAny (subject : Subject) : List (List Token) → Positions → Positions → Positions
  | [], found, _ => found
  | branch :: rest, found, from_ =>
    if isVoid branch then behindAny subject rest found from_
    else behindAny subject rest (found ||| behind subject branch from_) from_

end

/-- Does the glob match the whole name? Leading components alone match every name. -/
def accepts (tokens : List Token) (name : List UInt8) : Bool :=
  match tokens with
  | [.leadingComponents] => true
  | _ => (behind (.ofName name) tokens 1).testBit name.length

end ResourceMerge.Glob

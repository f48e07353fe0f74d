/-! Text as bytes. `utf8` writes a string in UTF-8; `lossy` reads any byte string, putting one
    replacement character in the place of each longest run of bytes that starts a code point but
    does not finish it (a byte that can start nothing is such a run of its own); `strict?` reads
    only what `utf8` writes. Surrogates, overlong forms and code points above U+10FFFF start nothing
    beyond their first byte.

    The first byte decides how many continuation bytes follow and which range the first of them must
    lie in; all later ones lie in `0x80..0xBF`. -/

namespace ResourceMerge.Text

/-- The text in UTF-8. -/
def utf8 (s : String) : List UInt8 := s.toList.flatMap String.utf8EncodeChar

/-- A text has as many bytes as UTF-8 needs for it. -/
theorem length_utf8 (s : String) : (utf8 s).length = s.utf8ByteSize := by
  rw [utf8, ← String.size_toByteArray, ← String.utf8Encode_toList]
  simp [List.utf8Encode]

/-- What the first byte of a longer form promises: its contribution to the code point, the least and
    greatest value of the next byte, and how many bytes follow after that one. -/
structure Lead where
  high : Nat
  least : UInt8
  greatest : UInt8
  more : Nat

/-- The promise of a first byte; none if the byte starts no form of two or more bytes. -/
def lead? (b : UInt8) : Option Lead :=
  if 0xC2 ≤ b ∧ b ≤ 0xDF then some ⟨b.toNat - 0xC0, 0x80, 0xBF, 0⟩
  else if b = 0xE0 then some ⟨0, 0xA0, 0xBF, 1⟩
  else if b = 0xED then some ⟨0xD, 0x80, 0x9F, 1⟩
  else if 0xE1 ≤ b ∧ b ≤ 0xEF then some ⟨b.toNat - 0xE0, 0x80, 0xBF, 1⟩
  else if b = 0xF0 then some ⟨0, 0x90, 0xBF, 2⟩
  else if 0xF1 ≤ b ∧ b ≤ 0xF3 then some ⟨b.toNat - 0xF0, 0x80, 0xBF, 2⟩
  else if b = 0xF4 then some ⟨4, 0x80, 0x8F, 2⟩
  else none

/-- The code point grown by six bits from a continuation byte. -/
def grow (high : Nat) (b : UInt8) : Nat := high * 64 + (b.toNat - 0x80)

/-- Where a decoder stands: between characters, or inside a form whose next byte must lie in a range
    and which needs `more` bytes after that. -/
inductive DecoderState where
  | between
  | inside (form : Lead)

/-- One byte read between characters: the characters it completes, and the state after it. -/
def startByte (b : UInt8) : List Char × DecoderState :=
  if b < 0x80 then ([Char.ofNat b.toNat], .between)
  else
    match lead? b with
    | some form => ([], .inside form)
    | none => (['\uFFFD'], .between)

/-- One byte read in any state. A byte that cannot continue the form gives up the form and is then
    read on its own. -/
def feed : DecoderState → UInt8 → List Char × DecoderState
  | .between, b => startByte b
  | .inside form, b =>
    if form.least ≤ b ∧ b ≤ form.greatest then
      match form.more with
      | 0 => ([Char.ofNat (grow form.high b)], .between)
      | more + 1 => ([], .inside ⟨grow form.high b, 0x80, 0xBF, more⟩)
    else
      let (chars, state) := startByte b
      ('\uFFFD' :: chars, state)

/-- The characters of a byte string read from a state, behind those of `done` (kept in reverse). A
    form left unfinished at the end is replaced. -/
def decodeOnto : DecoderState → List Char → List UInt8 → List Char
  | .between, done, [] => done.reverse
  | .inside _, done, [] => ('\uFFFD' :: done).reverse
  | state, done, b :: rest =>
    let (chars, next) := feed state b
    decodeOnto next (chars.reverse ++ done) rest

/-- The text of a byte string, with replacement characters for what is not UTF-8. -/
def lossy (bytes : List UInt8) : String := String.ofList (decodeOnto .between [] bytes)

/-- The text of a byte string that is UTF-8 throughout. -/
def strict? (bytes : List UInt8) : Option String :=
  let s := lossy bytes
  if utf8 s = bytes then some s else none

end ResourceMerge.Text

import ResourceMerge.Settings.Basic

/-! Settings as the text of a settings file, a TOML document. Of such documents those are settings
    that consist of pairs `key = value`, each on a line of its own among blank lines and comments,
    with one of four keys, none of them twice, and a value of the type of its key: a string, or an
    integer in the range of the setting. Tables, dotted keys and values of other types can only give
    keys or types that no setting has, so a document with any of them is refused as a whole. -/

namespace ResourceMerge.Settings.Toml

/-- Text still to be read. -/
abbrev Rest := List Char

/-- Space or tab. -/
def isSpace (c : Char) : Bool := c == ' ' || c == '\t'

/-- May the character stand in a comment or, quotes and escapes apart, in a string on one line? -/
def isPlain (c : Char) : Bool := c == '\t' || (0x20 ≤ c.toNat && c.toNat != 0x7F)

/-- The text behind spaces and tabs. -/
def skipSpace (cs : Rest) : Rest := cs.dropWhile isSpace

/-- The text behind the end of a line that may hold a comment, where the reading is inside of it. -/
def endComment : Rest → Option Rest
  | [] => some []
  | '\n' :: rest => some rest
  | '\r' :: '\n' :: rest => some rest
  | c :: rest => if isPlain c then endComment rest else none

/-- The text behind the end of a line on which only space and a comment may follow. -/
def endLine (cs : Rest) : Option Rest :=
  match skipSpace cs with
  | [] => some []
  | '\n' :: rest => some rest
  | '\r' :: '\n' :: rest => some rest
  | '#' :: rest => endComment rest
  | _ => none

/-! ### Strings -/

/-- Where the reading of a string with escapes stands: between characters, behind a backslash,
    inside a code point with so many digits to come, behind a backslash at the end of a line, or in
    the blank text that such a backslash removes. -/
inductive Position where
  | between
  | escape
  | codePoint (digits value : Nat)
  | lineEnd
  | removed

/-- The value of a hexadecimal digit. -/
def hexDigit? (c : Char) : Option Nat :=
  if c.isDigit then some (c.toNat - 48)
  else if 'a' ≤ c ∧ c ≤ 'f' then some (c.toNat - 87)
  else if 'A' ≤ c ∧ c ≤ 'F' then some (c.toNat - 55)
  else none

/-- The character that an escape of one letter stands for. -/
def escape? (c : Char) : Option Char :=
  match c with
  | 'b' => some '\x08'
  | 't' => some '\t'
  | 'n' => some '\n'
  | 'f' => some '\x0c'
  | 'r' => some '\r'
  | '"' => some '"'
  | '\\' => some '\\'
  | _ => none

/-- The character of a code point. -/
def scalar? (n : Nat) : Option Char := if n.isValidChar then some (Char.ofNat n) else none

/-- Does blank text begin here? -/
def blankFollows : Rest → Bool
  | c :: _ => isSpace c || c == '\n' || c == '\r'
  | [] => false

/-- The position behind a line end that an escape removes. -/
def afterLineEnd (rest : Rest) : Position := if blankFollows rest then .removed else .between

/-- Reads a string with escapes to the quotes that end it, behind the characters of `done` (kept in
    reverse); three quotes end one that may go over several lines, and up to two more before them
    belong to it. -/
def basicString (lines : Bool) (done : List Char) : Position → Rest → Option (String × Rest)
  | _, [] => none
  | .between, '"' :: rest =>
    if lines then
      match rest with
      | '"' :: '"' :: '"' :: '"' :: rest => some (String.ofList ('"' :: '"' :: done).reverse, rest)
      | '"' :: '"' :: '"' :: rest => some (String.ofList ('"' :: done).reverse, rest)
      | '"' :: '"' :: rest => some (String.ofList done.reverse, rest)
      | rest => basicString lines ('"' :: done) .between rest
    else some (String.ofList done.reverse, rest)
  | .between, '\\' :: rest => basicString lines done .escape rest
  | .between, '\r' :: '\n' :: rest =>
    if lines then basicString lines ('\n' :: done) .between rest else none
  | .between, c :: rest =>
    if isPlain c || (lines && c == '\n') then basicString lines (c :: done) .between rest else none
  | .escape, '\r' :: '\n' :: rest =>
    if lines then basicString lines done (afterLineEnd rest) rest else none
  | .escape, c :: rest =>
    if c = 'u' then basicString lines done (.codePoint 4 0) rest
    else if c = 'U' then basicString lines done (.codePoint 8 0) rest
    else if lines && isSpace c then basicString lines done .lineEnd rest
    else if lines && c == '\n' then basicString lines done (afterLineEnd rest) rest
    else
      match escape? c with
      | some c => basicString lines (c :: done) .between rest
      | none => none
  | .codePoint digits value, c :: rest =>
    match hexDigit? c with
    | none => none
    | some d =>
      if digits ≤ 1 then
        match scalar? (value * 16 + d) with
        | some c => basicString lines (c :: done) .between rest
        | none => none
      else basicString lines done (.codePoint (digits - 1) (value * 16 + d)) rest
  | .lineEnd, '\r' :: '\n' :: rest => basicString lines done (afterLineEnd rest) rest
  | .lineEnd, c :: rest =>
    if isSpace c then basicString lines done .lineEnd rest
    else if c = '\n' then basicString lines done (afterLineEnd rest) rest
    else none
  | .removed, '\r' :: '\n' :: rest => basicString lines done (afterLineEnd rest) rest
  | .removed, c :: rest =>
    if isSpace c || c == '\n' then basicString lines done (afterLineEnd rest) rest else none

/-- Reads a string without escapes to the quotes that end it, as `basicString` does. -/
def literalString (lines : Bool) (done : List Char) : Rest → Option (String × Rest)
  | [] => none
  | '\'' :: rest =>
    if lines then
      match rest with
      | '\'' :: '\'' :: '\'' :: '\'' :: rest =>
        some (String.ofList ('\'' :: '\'' :: done).reverse, rest)
      | '\'' :: '\'' :: '\'' :: rest => some (String.ofList ('\'' :: done).reverse, rest)
      | '\'' :: '\'' :: rest => some (String.ofList done.reverse, rest)
      | rest => literalString lines ('\'' :: done) rest
    else some (String.ofList done.reverse, rest)
  | '\r' :: '\n' :: rest => if lines then literalString lines ('\n' :: done) rest else none
  | c :: rest =>
    if isPlain c || (lines && c == '\n') then literalString lines (c :: done) rest else none

/-- The text behind a line end right at the start, which does not belong to a string over lines. -/
def skipLineEnd : Rest → Rest
  | '\n' :: rest => rest
  | '\r' :: '\n' :: rest => rest
  | rest => rest

/-- A string on one line. -/
def lineString : Rest → Option (String × Rest)
  | '"' :: rest => basicString false [] .between rest
  | '\'' :: rest => literalString false [] rest
  | _ => none

/-- A string, on one line or over several. -/
def string : Rest → Option (String × Rest)
  | '"' :: '"' :: '"' :: rest => basicString true [] .between (skipLineEnd rest)
  | '\'' :: '\'' :: '\'' :: rest => literalString true [] (skipLineEnd rest)
  | rest => lineString rest

/-! ### Integers -/

/-- The number that digits in a base spell, where single underscores may stand between digits;
    `open_` tells whether a digit must come next. -/
def digitsFrom (base value : Nat) (open_ : Bool) : List Char → Option Nat
  | [] => if open_ then none else some value
  | '_' :: rest => if open_ then none else digitsFrom base value true rest
  | c :: rest =>
    match hexDigit? c with
    | some d => if d < base then digitsFrom base (value * base + d) false rest else none
    | none => none

/-- A decimal number; only zero itself starts with a zero. -/
def decimal? : List Char → Option Nat
  | ['0'] => some 0
  | '0' :: _ => none
  | cs => digitsFrom 10 0 true cs

/-- An integer of 64 bits, with a sign or with a base other than ten, but not with both. -/
def integer? (word : List Char) : Option Int :=
  let value : Option Int :=
    match word with
    | '0' :: 'x' :: digits => (digitsFrom 16 0 true digits).map Int.ofNat
    | '0' :: 'o' :: digits => (digitsFrom 8 0 true digits).map Int.ofNat
    | '0' :: 'b' :: digits => (digitsFrom 2 0 true digits).map Int.ofNat
    | '+' :: digits => (decimal? digits).map Int.ofNat
    | '-' :: digits => (decimal? digits).map fun n => -(n : Int)
    | digits => (decimal? digits).map Int.ofNat
  value.filter fun n => -9223372036854775808 ≤ n && n ≤ 9223372036854775807

/-! ### Documents -/

/-- A value of the types that settings have. -/
inductive Value where
  | text (value : String)
  | integer (value : Int)

/-- May the character stand in a word, that is, in a key or number without quotes? -/
def inWord (c : Char) : Bool := !(isSpace c || c == '\n' || c == '\r' || c == '#' || c == '=')

/-- May the character stand in a key without quotes? -/
def inKey (c : Char) : Bool := c.isAlphanum || c == '_' || c == '-'

/-- A key. -/
def key (cs : Rest) : Option (String × Rest) :=
  let word := cs.takeWhile inKey
  if word.isEmpty then lineString cs else some (String.ofList word, cs.dropWhile inKey)

/-- A value. -/
def value (cs : Rest) : Option (Value × Rest) :=
  match string cs with
  | some (text, rest) => some (.text text, rest)
  | none => (integer? (cs.takeWhile inWord)).map fun n => (.integer n, cs.dropWhile inWord)

/-- The settings with one more pair. -/
def assign (settings : Settings) (key : String) (value : Value) : Option Settings :=
  match key, value with
  | "filter", .text s =>
    if settings.filter.isNone then some { settings with filter := some s } else none
  | "class_name", .text s =>
    if settings.className.isNone then some { settings with className := some s } else none
  | "class_version", .integer n =>
    if settings.classVersion.isNone ∧ 0 ≤ n ∧ n ≤ 65535 then
      some { settings with classVersion := some (UInt16.ofNat n.toNat) }
    else none
  | "parallel_threshold", .integer n =>
    if settings.parallelThreshold.isNone ∧ 0 ≤ n then
      some { settings with parallelThreshold := some n.toNat }
    else none
  | _, _ => none

/-- The settings with the pair on one line, and the text behind the line. -/
def pair (settings : Settings) (cs : Rest) : Option (Settings × Rest) := do
  let (key, rest) ← key cs
  match skipSpace rest with
  | '=' :: rest =>
    let (value, rest) ← value (skipSpace rest)
    let settings ← assign settings key value
    return (settings, ← endLine rest)
  | _ => none

/-- The settings with all pairs of a text. Every line takes a character at least, so as many rounds
    as there are characters are enough. -/
def pairs (settings : Settings) : (rounds : Nat) → Rest → Option Settings
  | 0, _ => some settings
  | rounds + 1, cs =>
    if cs.isEmpty then some settings
    else
      match endLine cs with
      | some rest => pairs settings rounds rest
      | none =>
        match pair settings (skipSpace cs) with
        | some (settings, rest) => pairs settings rounds rest
        | none => none

/-- The text without a byte order mark in front. -/
def withoutMark : Rest → Rest
  | '\uFEFF' :: rest => rest
  | rest => rest

/-- The settings of a text. -/
def parse (text : String) : Option Settings :=
  let cs := withoutMark text.toList
  pairs .empty cs.length cs

end ResourceMerge.Settings.Toml

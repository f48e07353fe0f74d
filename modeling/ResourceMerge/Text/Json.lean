import ResourceMerge.Text.Numeral

/-! JSON documents made of integers, texts, lists and objects, in two written forms: compact,
    without any space, and indented by two spaces a level, where an empty list or object stays on
    its line. Members of an object keep their order. In a text the quotation mark, the backslash and
    the control characters below U+0020 are escaped, by one letter where there is one. -/

namespace ResourceMerge.Text

/-- A document. -/
inductive Json where
  | number (value : Int)
  | text (value : String)
  | list (items : List Json)
  | object (members : List (String × Json))

namespace Json

/-- How one character looks inside a text. -/
def escapedChar (c : Char) : String :=
  match c with
  | '"' => "\\\""
  | '\\' => "\\\\"
  | '\x08' => "\\b"
  | '\x0c' => "\\f"
  | '\n' => "\\n"
  | '\r' => "\\r"
  | '\t' => "\\t"
  | c => if c.toNat < 0x20 then "\\u" ++ hexPadded 4 c.toNat else String.singleton c

/-- A text in its written form. -/
def quote (s : String) : String :=
  s.toList.foldl (fun out c => out ++ escapedChar c) "\"" ++ "\""

/-- A new line at a level of indentation. -/
def newLine (level : Nat) : String := "\n" ++ String.ofList (List.replicate (2 * level) ' ')

mutual

/-- A document in compact form, behind the text `out`. -/
def compactOnto (out : String) : Json → String
  | .number value => out ++ toString value
  | .text value => out ++ quote value
  | .list items => compactItems (out ++ "[") "" items ++ "]"
  | .object members => compactMembers (out ++ "\x7b") "" members ++ "\x7d"

/-- Items in compact form, with `mark` before the first. -/
def compactItems (out mark : String) : List Json → String
  | [] => out
  | item :: rest => compactItems (compactOnto (out ++ mark) item) "," rest

/-- Members in compact form, with `mark` before the first. -/
def compactMembers (out mark : String) : List (String × Json) → String
  | [] => out
  | (name, value) :: rest =>
    compactMembers (compactOnto (out ++ mark ++ quote name ++ ":") value) "," rest

end

mutual

/-- A document in indented form at a level, behind the text `out`. -/
def indentedOnto (level : Nat) (out : String) : Json → String
  | .number value => out ++ toString value
  | .text value => out ++ quote value
  | .list [] => out ++ "[]"
  | .list items => indentedItems (level + 1) (out ++ "[") "" items ++ newLine level ++ "]"
  | .object [] => out ++ "\x7b\x7d"
  | .object members =>
    indentedMembers (level + 1) (out ++ "\x7b") "" members ++ newLine level ++ "\x7d"

/-- Items at a level of their own, with `mark` before the first. -/
def indentedItems (level : Nat) (out mark : String) : List Json → String
  | [] => out
  | item :: rest =>
    indentedItems level (indentedOnto level (out ++ mark ++ newLine level) item) "," rest

/-- Members at a level of their own, with `mark` before the first. -/
def indentedMembers (level : Nat) (out mark : String) : List (String × Json) → String
  | [] => out
  | (name, value) :: rest =>
    indentedMembers level
      (indentedOnto level (out ++ mark ++ newLine level ++ quote name ++ ": ") value) "," rest

end

/-- The compact form of a document. -/
def compact (document : Json) : String := compactOnto "" document

/-- The indented form of a document. -/
def indented (document : Json) : String := indentedOnto 0 "" document

end Json

end ResourceMerge.Text

import ResourceMerge.Text.Invisible
import ResourceMerge.Text.Numeral

/-! Quoted text inside messages. The quoted form stands between double quotes; NUL, tab, carriage
    return, newline, the double quote and the backslash have escapes of two characters, every other
    invisible character is spelled by its code point, and all else stands for itself. -/

namespace ResourceMerge.Text

/-- How one character looks between quotes. -/
def quotedChar (c : Char) : String :=
  match c with
  | '\x00' => "\\0"
  | '\t' => "\\t"
  | '\r' => "\\r"
  | '\n' => "\\n"
  | '"' => "\\\""
  | '\\' => "\\\\"
  | c => if isInvisible c then "\\u\x7b" ++ hex c.toNat ++ "\x7d" else String.singleton c

/-- The text between double quotes, escaped. -/
def quoted (s : String) : String :=
  s.toList.foldl (fun out c => out ++ quotedChar c) "\"" ++ "\""

end ResourceMerge.Text

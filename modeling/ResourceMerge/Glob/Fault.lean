/-! What can be wrong with a glob. -/

namespace ResourceMerge.Glob

/-- A fault in the syntax of a glob. -/
inductive Fault where
  | unclosedClass
  | reversedRange (low high : Char)
  | unopenedAlternates
  | unclosedAlternates
  | danglingEscape
  deriving DecidableEq

/-- The wording of a fault. -/
def Fault.text : Fault → String
  | .unclosedClass => "unclosed character class; missing ']'"
  | .reversedRange low high =>
    "invalid range; '" ++ String.singleton low ++ "' > '" ++ String.singleton high ++ "'"
  | .unopenedAlternates =>
    "unopened alternate group; missing '\x7b' (maybe escape '\x7d' with '[\x7d]'?)"
  | .unclosedAlternates =>
    "unclosed alternate group; missing '\x7d' (maybe escape '\x7b' with '[\x7b]'?)"
  | .danglingEscape => "dangling '\\'"

end ResourceMerge.Glob

import ResourceMerge.Glob.Automaton
import ResourceMerge.Glob.Expression
import ResourceMerge.Glob.Shape

/-! Globs that are too large. An expression may be nested 250 levels deep, and its automata may take
    ten mebibytes each; a glob that needs more is refused, for its levels first. Globs that a
    comparison of texts settles have no expression and no limit. -/

namespace ResourceMerge.Glob

/-- The levels that an expression may have. -/
def maxLevels : Nat := 250

/-- The bytes that an automaton may take. -/
def maxSize : Nat := 10 * 1024 * 1024

/-- What a glob has too much of. -/
inductive Excess where
  | levels
  | size
  deriving DecidableEq

/-- The wording of an excess. -/
def Excess.text : Excess → String
  | .levels => "error parsing pattern 0"
  | .size => "error building NFA"

/-- A glob that is too large; for those tried on one extension only, the wording names the
    expression. -/
structure TooLarge where
  expression : Option String
  excess : Excess
  deriving DecidableEq

/-- The wording of the refusal. -/
def TooLarge.text (refusal : TooLarge) : String :=
  let place := match refusal.expression with
    | none => ""
    | some text => "error parsing glob '" ++ text ++ "': "
  place ++ refusal.excess.text

/-- The excess of a glob that is read token by token. -/
def excess? (tokens : List Token) : Option Excess :=
  if levels tokens > maxLevels then some .levels
  else
    let form := form maxLevels [] tokens
    if [Direction.forward, .backward].any fun d => Automaton.totalSize d form > maxSize then
      some .size
    else none

/-- Checks the limits for a glob. -/
def checkLimits (tokens : List Token) : Except TooLarge Unit :=
  match shape tokens with
  | .lastComponent _ | .extension _ | .wholeName _ | .components _ => .ok ()
  | .withExtension =>
    match excess? tokens with
    | none => .ok ()
    | some excess => .error ⟨some (expression tokens), excess⟩
  | .general =>
    match excess? tokens with
    | none => .ok ()
    | some excess => .error ⟨none, excess⟩

end ResourceMerge.Glob

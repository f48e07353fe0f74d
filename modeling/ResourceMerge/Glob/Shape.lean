import ResourceMerge.Glob.Pattern

/-! What a glob asks of a name. Most globs need the whole name read token by token, but some are so
    plain that a comparison of texts settles them: with the last component, with its extension, with
    the name or the end of it. The others that end in an extension are tried only on names with that
    extension.

    The shape decides one thing that the tokens alone do not: a last component of two dots stands
    for the directory above, so it is no one's name, and a glob that asks for the last component or
    its extension finds nothing there. -/

namespace ResourceMerge.Glob

/-- What a glob asks for. -/
inductive Shape where
  /-- a last component -/
  | lastComponent (text : List UInt8)
  /-- an extension of the last component -/
  | extension (text : List UInt8)
  /-- a name -/
  | wholeName (text : List UInt8)
  /-- several components, which are the name or the end of one -/
  | components (text : List UInt8)
  /-- an extension, and more -/
  | withExtension
  /-- anything else -/
  | general
  deriving DecidableEq

/-- The character that a token stands for, if it stands for one. -/
def Token.char? : Token → Option Char
  | .literal c => some c
  | _ => none

/-- The text that a sequence of tokens stands for, if it is one of characters. -/
def plain? (tokens : List Token) : Option (List Char) := tokens.mapM Token.char?

/-- The bytes of a text. -/
def bytes (text : List Char) : List UInt8 := text.flatMap String.utf8EncodeChar

/-- Does a sequence of tokens end in a dot and characters other than the dot and the slash? -/
def endsInExtension (tokens : List Token) : Bool :=
  match tokens.reverse.find? fun token =>
    token.char?.all fun c => c == '.' || c == '/' with
  | some (.literal '.') => true
  | _ => false

/-- The extension, if what follows the leading components is just any bytes and an extension. -/
def extension? : List Token → Option (List Char)
  | .anyBytes :: .literal '.' :: rest =>
    (plain? rest).filter fun cs => !cs.contains '.' && !cs.contains '/'
  | _ => none

/-- The shape of a glob. -/
def shape (tokens : List Token) : Shape :=
  let other := if endsInExtension tokens then Shape.withExtension else .general
  match tokens with
  | .leadingComponents :: rest =>
    match plain? rest, extension? rest with
    | some [], _ => .general
    | some cs, _ => if cs.contains '/' then .components (bytes cs) else .lastComponent (bytes cs)
    | none, some cs => .extension (bytes cs)
    | none, none => other
  | [] => .general
  | _ =>
    match plain? tokens with
    | some cs => .wholeName (bytes cs)
    | none => other

/-- A full stop. -/
def dot : UInt8 := 0x2E

/-- The last component of a name. -/
def lastComponent (name : List UInt8) : List UInt8 :=
  (name.reverse.takeWhile (· != slash)).reverse

/-- The text behind the last full stop of a component. -/
def extensionOf (component : List UInt8) : Option (List UInt8) :=
  match component.reverse.span (· != dot) with
  | (_, []) => none
  | (behindDot, _) => some behindDot.reverse

/-- Is the last component of a name two dots? -/
def endsAbove (name : List UInt8) : Bool := lastComponent name == [dot, dot]

/-- Does the glob accept the name? -/
def acceptsName (tokens : List Token) (name : List UInt8) : Bool :=
  match shape tokens with
  | .lastComponent text => !endsAbove name && lastComponent name == text
  | .extension text => !endsAbove name && extensionOf (lastComponent name) == some text
  | .wholeName text => name == text
  | .components text => name == text || (slash :: text).isSuffixOf name
  | .withExtension => !endsAbove name && accepts tokens name
  | .general => accepts tokens name

end ResourceMerge.Glob

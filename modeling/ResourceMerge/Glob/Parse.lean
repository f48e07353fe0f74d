import ResourceMerge.Glob.Fault
import ResourceMerge.Glob.Pattern

/-! From the text of a glob to its tokens, one character at a time. Groups of alternatives nest: the
    state holds, for each open group from the innermost out, the branches of it that are complete
    and the tokens that stand before it, and the tokens of the branch being read. Inside a class the
    state also holds what the class has so far.

    Two stars stand for whole components only where they fill a component: at the start of a branch
    before a slash or the end, or behind a slash and before a slash, the end of the glob or the end
    of a branch. Elsewhere they mean what one star means. -/

namespace ResourceMerge.Glob

/-- A group of alternatives that is open: its complete branches, the last first, and the tokens
    before it, the last first. -/
structure OpenGroup where
  branches : List (List Token)
  before : List Token

/-- What has been read: the tokens of the current branch, the last first, and the open groups, the
    innermost first. -/
structure Draft where
  tokens : List Token
  groups : List OpenGroup

/-- A class that is open: its ranges, the last first, and whether the last one awaits its end. -/
structure OpenClass where
  negated : Bool
  ranges : List (Char × Char)
  awaitsEnd : Bool

namespace Draft

/-- Nothing read yet. -/
def empty : Draft := ⟨[], []⟩

/-- One more token. -/
def push (draft : Draft) (token : Token) : Draft := { draft with tokens := token :: draft.tokens }

/-- A group begins. -/
def openGroup (draft : Draft) : Draft := ⟨[], ⟨[], draft.tokens⟩ :: draft.groups⟩

/-- A comma: the next branch of a group, or itself where no group is open. -/
def comma (draft : Draft) : Draft :=
  match draft.groups with
  | [] => draft.push (.literal ',')
  | group :: groups =>
    ⟨[], { group with branches := draft.tokens.reverse :: group.branches } :: groups⟩

/-- A group ends. -/
def closeGroup (draft : Draft) : Except Fault Draft :=
  match draft.groups with
  | [] => .error .unopenedAlternates
  | group :: groups =>
    let branches := (draft.tokens.reverse :: group.branches).reverse
    .ok ⟨.oneOf branches :: group.before, groups⟩

/-- The glob ends. -/
def finish (draft : Draft) : Except Fault (List Token) :=
  if draft.groups.isEmpty then .ok draft.tokens.reverse else .error .unclosedAlternates

/-- Two stars without a meaning of their own. -/
def pushStars (draft : Draft) : Draft := (draft.push .anyBytes).push .anyBytes

/-- The last token gives way to one for whole components; components at the start or the end of a
    glob absorb those behind them. -/
def replaceLast (draft : Draft) (token : Token) : Draft :=
  match draft.tokens with
  | .leadingComponents :: _ => draft
  | .trailingComponents :: _ => draft
  | _ :: before => { draft with tokens := token :: before }
  | [] => draft.push token

/-- Two stars behind the character `last` and before the character `next`: what is read then, and
    whether `next` is used up. -/
def doubleStar (draft : Draft) (last next : Option Char) : Draft × Bool :=
  if draft.tokens.isEmpty then
    if next.isNone || next == some '/' then (draft.push .leadingComponents, next.isSome)
    else (draft.pushStars, false)
  else
    let grouped := !draft.groups.isEmpty
    if last == some '/' || (grouped && (last == some ',' || last == some '\x7b')) then
      if next.isNone || (grouped && (next == some ',' || next == some '\x7d')) then
        (draft.replaceLast .trailingComponents, false)
      else if next == some '/' then (draft.replaceLast .innerComponents, true)
      else (draft.pushStars, false)
    else (draft.pushStars, false)

end Draft

namespace OpenClass

/-- The class with one more character; a closing bracket or a hyphen that comes first is one. -/
def add (c : OpenClass) (char : Char) : Except Fault OpenClass :=
  match c.ranges with
  | [] => .ok { c with ranges := [(char, char)] }
  | (low, high) :: ranges =>
    if c.awaitsEnd then
      if char < low then .error (.reversedRange low char)
      else .ok { c with ranges := (low, char) :: ranges, awaitsEnd := false }
    else if char = '-' then .ok { c with awaitsEnd := true }
    else .ok { c with ranges := (char, char) :: (low, high) :: ranges }

/-- The token of a class that ends; a hyphen left open is a character of it. -/
def token (c : OpenClass) : Token :=
  .byteClass c.negated (if c.awaitsEnd then ('-', '-') :: c.ranges else c.ranges).reverse

end OpenClass

/-- Reads on from a state; `last` is the character read before, `inside` the class that is open. -/
def parseFrom (draft : Draft) (last : Option Char) (inside : Option OpenClass) :
    List Char → Except Fault (List Token)
  | [] => if inside.isSome then .error .unclosedClass else draft.finish
  | c :: rest =>
    match inside with
    | some open_ =>
      if c = ']' ∧ open_.ranges ≠ [] then parseFrom (draft.push open_.token) (some c) none rest
      else
        match open_.add c with
        | .ok open_ => parseFrom draft (some c) (some open_) rest
        | .error fault => .error fault
    | none =>
      match c, rest with
      | '?', rest => parseFrom (draft.push .oneByte) (some c) none rest
      | '*', '*' :: '/' :: rest =>
        match draft.doubleStar last (some '/') with
        | (draft, true) => parseFrom draft (some '/') none rest
        | (draft, false) => parseFrom (draft.push (.literal '/')) (some '/') none rest
      | '*', '*' :: rest =>
        parseFrom (draft.doubleStar last rest.head?).1 (some '*') none rest
      | '*', rest => parseFrom (draft.push .anyBytes) (some c) none rest
      | '[', '!' :: rest => parseFrom draft (some '!') (some ⟨true, [], false⟩) rest
      | '[', '^' :: rest => parseFrom draft (some '^') (some ⟨true, [], false⟩) rest
      | '[', rest => parseFrom draft (some c) (some ⟨false, [], false⟩) rest
      | '\x7b', rest => parseFrom draft.openGroup (some c) none rest
      | '\x7d', rest =>
        match draft.closeGroup with
        | .ok draft => parseFrom draft (some c) none rest
        | .error fault => .error fault
      | ',', rest => parseFrom draft.comma (some c) none rest
      | '\\', [] => .error .danglingEscape
      | '\\', c :: rest => parseFrom (draft.push (.literal c)) (some c) none rest
      | c, rest => parseFrom (draft.push (.literal c)) (some c) none rest

/-- The tokens of a glob. -/
def parse (glob : List Char) : Except Fault (List Token) := parseFrom .empty none none glob

end ResourceMerge.Glob

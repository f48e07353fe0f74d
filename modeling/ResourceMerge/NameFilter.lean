import ResourceMerge.Error
import ResourceMerge.Glob.Parse
import ResourceMerge.Text.Blank

/-! Which classes take part, told by their simple names. A filter is written as one line of an
    ignore file. A line that begins with a number sign is a comment; white space at its end does not
    count; an exclamation mark in front, or a slash at the end, makes a filter that accepts nothing;
    a slash in front ties the glob to the start of the name, and so does any slash inside. A glob
    without a slash applies to the last component of a name. -/

namespace ResourceMerge

/-- A filter on names: its source, and the tokens of the glob that accepts names, if any does. -/
structure NameFilter where
  glob : String
  tokens : Option (List Glob.Token)

namespace NameFilter

open Glob

/-- The filter for the classes that hold resources. -/
def defaultGlob : String := "R$*"

/-- The line that remains of a source: none if it is a comment or blank. -/
def line? (source : List Char) : Option (List Char) :=
  if source.head? = some '#' then none
  else
    let line := if [' ', '\\'].isPrefixOf source.reverse then source else Text.trimEnd source
    if line.isEmpty then none else some line

/-- A line without its marks: whether it accepts at all, whether it is tied to the start of the
    name, and the glob. -/
structure Rule where
  accepts : Bool
  anchored : Bool
  glob : List Char

/-- The marks in front of a line, taken off. -/
def unmarked (line : List Char) : Rule :=
  match line with
  | '\\' :: '!' :: rest => ⟨true, false, '!' :: rest⟩
  | '\\' :: '#' :: rest => ⟨true, false, '#' :: rest⟩
  | '!' :: '/' :: rest => ⟨false, true, rest⟩
  | '!' :: rest => ⟨false, false, rest⟩
  | '/' :: rest => ⟨true, true, rest⟩
  | rest => ⟨true, false, rest⟩

/-- A slash at the end, taken off with the escape before it; what it leaves is for directories. -/
def withoutFinalSlash (rule : Rule) : Rule :=
  match rule.glob.reverse with
  | '/' :: '\\' :: rest => { rule with accepts := false, glob := rest.reverse }
  | '/' :: rest => { rule with accepts := false, glob := rest.reverse }
  | _ => rule

/-- The glob of a rule over whole names. -/
def wholeNameGlob (rule : Rule) : List Char :=
  let stars := ['*', '*']
  let glob :=
    if rule.anchored || rule.glob.contains '/' || rule.glob = stars then rule.glob
    else stars ++ '/' :: rule.glob
  if ['*', '*', '/'].isPrefixOf glob.reverse then glob ++ ['/', '*'] else glob

/-- The filter of a source. -/
def ofGlob (glob : String) : Except Error NameFilter :=
  match line? glob.toList with
  | none => .ok ⟨glob, none⟩
  | some line =>
    let rule := withoutFinalSlash (unmarked line)
    match Glob.parse (wholeNameGlob rule) with
    | .error fault => .error (.settings (.badFilter glob (String.ofList line) fault))
    | .ok tokens =>
      match checkLimits tokens with
      | .error tooLarge => .error (.settings (.filterTooLarge glob tooLarge))
      | .ok () => .ok ⟨glob, if rule.accepts then some tokens else none⟩

/-- A name as the glob sees it: without a dot and slash in front, and without one or two slashes in
    front. -/
def seenName (name : List UInt8) : List UInt8 :=
  let name := match name with
    | 0x2E :: 0x2F :: rest => rest
    | _ => name
  match name with
  | 0x2F :: 0x2F :: rest => rest
  | 0x2F :: rest => rest
  | _ => name

/-- Does the filter accept a name? -/
def accepts (filter : NameFilter) (name : String) : Bool :=
  match filter.tokens with
  | none => false
  | some tokens => Glob.acceptsName tokens (seenName (Text.utf8 name))

/-- Does the filter accept the class that a file is named for? -/
def acceptsFile (filter : NameFilter) (fileName : String) : Bool :=
  match "ssalc.".toList.isPrefixOf? fileName.toList.reverse with
  | some rest => filter.accepts (String.ofList rest.reverse)
  | none => false

end NameFilter

end ResourceMerge

import ResourceMerge.Glob.Form

/-! The size of the automaton that reads names for a glob, in bytes. A state takes 32 bytes, each
    further byte range on which it moves 8, and each way that it forks into 4. There are two
    automata, one that reads names forward and one that reads them backward.

    A choice between texts becomes a tree: texts that begin alike, in the direction of reading,
    share states as long as no text between them in the choice ends there. -/

namespace ResourceMerge.Glob

/-- The direction in which an automaton reads. -/
inductive Direction where
  | forward
  | backward
  deriving DecidableEq

namespace Automaton

/-- The bytes of a state. -/
def stateSize : Nat := 32

/-- The bytes of a byte range on which a state moves. -/
def moveSize : Nat := 8

/-- The bytes of a way that a state forks into. -/
def forkSize : Nat := 4

/-! ### Choices between texts -/

/-- Texts that go on with the same byte: the byte, and what follows it, the last first. -/
structure Group where
  byte : UInt8
  rests : List (List UInt8)

/-- Adds a text to its group. -/
def addToGroup (byte : UInt8) (text : List UInt8) : List Group → List Group
  | [] => [⟨byte, [text]⟩]
  | group :: groups =>
    if group.byte = byte then { group with rests := text :: group.rests } :: groups
    else group :: addToGroup byte text groups

/-- The groups of texts between one that ends here and the next one that does, from the groups so
    far. -/
def runs (groups : List Group) (done : List (List Group)) : List (List UInt8) → List (List Group)
  | [] => groups :: done
  | [] :: texts => runs [] (groups :: done) texts
  | (byte :: text) :: texts => runs (addToGroup byte text groups) done texts

/-- The bytes of the states for one run: one state moves on all of its bytes. -/
def runSize (groups : List Group) : Nat :=
  match groups with
  | [] => 0
  | [_] => forkSize + stateSize
  | groups => forkSize + stateSize + moveSize * groups.length

/-- A place in the tree, told by what is left of the texts that pass it: its bytes, and the places
    below it. Where all texts end, there is no place. Of the texts that end before any other goes
    on, one counts. -/
def place (texts : List (List UInt8)) : Nat × List (List (List UInt8)) :=
  match texts.dropWhile List.isEmpty with
  | [] => (0, [])
  | onward =>
    let runs := runs [] [] onward
    let ends := runs.length - 1 + if texts.head?.any List.isEmpty then 1 else 0
    (runs.foldl (fun size groups => size + runSize groups) (stateSize + forkSize * ends),
      runs.flatten.map fun group => group.rests.reverse)

/-- The bytes of the places of a tree, behind those counted before; there is at most one place for
    each byte of the texts, and one more. -/
def treeSizeOnto (size : Nat) : Nat → List (List (List UInt8)) → Nat
  | places + 1, texts :: rest =>
    let (here, below) := place texts
    treeSizeOnto (size + here) places (below ++ rest)
  | _, _ => size

/-- The bytes of the states for a choice between texts. -/
def treeSize (texts : List (List UInt8)) : Nat :=
  treeSizeOnto stateSize (texts.foldl (fun places text => places + text.length) 1) [texts]

/-! ### Sets of characters -/

/-- The bytes with which both texts begin. -/
def sharedBytes (a b : List UInt8) : Nat := ((a.zip b).takeWhile fun (x, y) => x == y).length

/-- What characters in their order come to, behind the character `last`: the different beginnings of
    their bytes, and the different ends. Neighbours that differ in the last byte only have one end
    together. -/
def countBytes (last : Option Char) (beginnings ends : Nat) : List Char → Nat × Nat
  | [] => (beginnings, ends)
  | c :: chars =>
    let text := String.utf8EncodeChar c
    let shared := match last with
      | some earlier => sharedBytes (String.utf8EncodeChar earlier) text
      | none => 0
    let neighbours := last.any fun earlier => earlier.toNat + 1 = c.toNat
    let fresh := text.length - 1 - shared
    let joins := neighbours && fresh = 0
    countBytes (some c) (beginnings + fresh) (if joins then ends else ends + 1) chars

/-- The bytes of the states for a set of characters. Forward, one state stands behind each beginning
    and moves on what follows it; backward, each beginning and each end is a state of its own, and
    the set forks into the ends. -/
def charSetSize (direction : Direction) (chars : List Char) : Nat :=
  let (beginnings, ends) := countBytes none 0 0 chars
  match direction with
  | .forward => 2 * stateSize + stateSize * beginnings + moveSize * (beginnings + ends)
  | .backward => 2 * stateSize + stateSize * (beginnings + ends) + forkSize * ends

/-! ### Forms -/

/-- The bytes of a text in the direction of reading. -/
def spelled (direction : Direction) (reversed : List Char) : List UInt8 :=
  match direction with
  | .forward => reversed.reverse.flatMap String.utf8EncodeChar
  | .backward => (reversed.reverse.flatMap String.utf8EncodeChar).reverse

/-- The characters of a text. -/
def text? : Form → Option (List Char)
  | .text reversed => some reversed
  | _ => none

mutual

/-- The bytes of the states for a form. -/
def size (direction : Direction) : Form → Nat
  | .text reversed => stateSize * (spelled direction reversed).length
  | .byteSet ranges => 2 * stateSize + moveSize * ranges.length
  | .charSet chars => charSetSize direction chars
  | .star form => stateSize + 2 * forkSize + size direction form
  | .optional form => 2 * stateSize + 2 * forkSize + size direction form
  | .sequence [] => stateSize
  | .sequence parts => sizeOnto direction 0 parts
  | .choice branches =>
    match branches.mapM text? with
    | some texts => treeSize (texts.map (spelled direction))
    | none => sizeOnto direction (2 * stateSize + forkSize * branches.length) branches

/-- The bytes of the states for forms, and those counted before. -/
def sizeOnto (direction : Direction) (counted : Nat) : List Form → Nat
  | [] => counted
  | form :: forms => sizeOnto direction (counted + size direction form) forms

end

/-- The bytes of the states that every automaton has: for the start, for the two ends of the name
    and for success, and forward also for noting where the name begins and ends. -/
def frameSize : Direction → Nat
  | .forward => 6 * stateSize
  | .backward => 4 * stateSize

/-- The bytes of the automaton of a form. -/
def totalSize (direction : Direction) : Form → Nat
  | .sequence [] => frameSize direction
  | form => frameSize direction + size direction form

end Automaton

end ResourceMerge.Glob

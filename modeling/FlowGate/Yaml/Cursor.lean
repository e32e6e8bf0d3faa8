import FlowGate.Text.Bytes

/-!
# Positions in a YAML text

A cursor is the text that is left with the place where it starts: the bytes and the lines before
it, and the characters before it on its line. Line breaks are line feed, carriage return (both in a
row are one break), next line, and the line and paragraph separators; the first three all count as a
line feed in the content of scalars.
-/

set_option autoImplicit false

namespace FlowGate.Yaml

/-- Runs a step until it finishes, for at most `fuel` steps. Steps that take up text finish within
as many steps as there are characters left. -/
def repeatStep {σ β : Type} (step : σ → Option (σ ⊕ β)) : Nat → σ → Option β
  | 0, _ => none
  | fuel + 1, state =>
    match step state with
    | none => none
    | some (.inl next) => repeatStep step fuel next
    | some (.inr result) => some result

def isBreak (c : Char) : Bool :=
  c == '\n' || c == '\r' || c == '\u0085' || c == '\u2028' || c == '\u2029'

/-- Whether a character is a space or tab. -/
def isSpace (c : Char) : Bool :=
  c == ' ' || c == '\t'

/-- Whether the text ends here or goes on with a space, tab or break. -/
def endsWord (next : Option Char) : Bool :=
  next.all fun c ↦ isSpace c || isBreak c

/-- Whether the text or the line ends here. -/
def endsLine (next : Option Char) : Bool :=
  next.all isBreak

/-- What a break counts as in the content of a scalar. -/
def breakContent (c : Char) : Char :=
  if c == '\u2028' || c == '\u2029' then c else '\n'

structure Cursor where
  rest : List Char
  index : Nat
  line : Nat
  column : Nat

namespace Cursor

def start (text : List Char) : Cursor :=
  ⟨text, 0, 0, 0⟩

def peek (cursor : Cursor) : Option Char :=
  cursor.rest.head?

/-- The character `n` places ahead. -/
def peekAt (cursor : Cursor) (n : Nat) : Option Char :=
  cursor.rest[n]?

/-- Goes over characters of one line. -/
def skip (cursor : Cursor) (count : Nat) : Cursor :=
  ⟨cursor.rest.drop count, cursor.index + byteLength (cursor.rest.take count), cursor.line,
    cursor.column + count⟩

/-- Goes over a line break, if one is here. -/
def skipBreak (cursor : Cursor) : Cursor :=
  match cursor.rest with
  | '\r' :: '\n' :: rest => ⟨rest, cursor.index + 2, cursor.line + 1, 0⟩
  | c :: rest =>
    if isBreak c then ⟨rest, cursor.index + c.utf8Size, cursor.line + 1, 0⟩ else cursor
  | [] => cursor

/-- What the line break here counts as. -/
def breakText (cursor : Cursor) : List Char :=
  match cursor.rest with
  | c :: _ => if isBreak c then [breakContent c] else []
  | [] => []

/-- The characters from here on as long as they are of a kind. -/
def run (cursor : Cursor) (p : Char → Bool) : List Char :=
  cursor.rest.takeWhile p

/-- Goes over characters of a kind that are no breaks. -/
def skipRun (cursor : Cursor) (p : Char → Bool) : Cursor :=
  cursor.skip (cursor.run p).length

/-- Goes to the end of the line over spaces and a comment, if nothing else is there. -/
def skipLineEnd? (cursor : Cursor) : Option Cursor :=
  let afterSpaces := cursor.skipRun isSpace
  let afterComment :=
    if afterSpaces.peek == some '#' then afterSpaces.skipRun (!isBreak ·) else afterSpaces
  if endsLine afterComment.peek then some afterComment.skipBreak else none

/-- Whether a marker of the start or the end of a document is here. -/
def atDocumentMarker (cursor : Cursor) : Bool :=
  cursor.column == 0 && endsWord (cursor.peekAt 3) &&
    ("---".toList.isPrefixOf cursor.rest || "...".toList.isPrefixOf cursor.rest)

/-- Enough steps for a loop in which every step but the last takes up text. -/
def steps (cursor : Cursor) : Nat :=
  cursor.rest.length + 1

end Cursor

end FlowGate.Yaml

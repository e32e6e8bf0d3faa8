import FlowGate.Number.Digits
import FlowGate.Yaml.Cursor

/-!
# Scalars of YAML

Reading plain, quoted and block scalars. Within a plain or quoted scalar a single line break
counts as a space and further breaks stand for themselves; a literal block keeps its breaks, and a
folded block joins lines that start with no space.
-/

set_option autoImplicit false

namespace FlowGate.Yaml

/-- How a scalar is written. -/
inductive Style where
  | plain
  | singleQuoted
  | doubleQuoted
  | literal
  | folded
  deriving DecidableEq

/-- Spaces and breaks between words: whether a break has been seen, the spaces before it, the first
break and the others. -/
structure Gap where
  broken : Bool
  spaces : List Char
  first : List Char
  others : List Char

namespace Gap

def empty : Gap :=
  ⟨false, [], [], []⟩

/-- What the gap leaves in the content. -/
def content (gap : Gap) : List Char :=
  if gap.broken then
    if gap.first = ['\n'] then
      if gap.others = [] then [' '] else gap.others
    else
      gap.first ++ gap.others
  else
    gap.spaces

/-- Adds one space, tab or break to the gap. A tab left of column `indent` after a break is refused.
-/
def step (indent : Int) (state : Cursor × Gap) : Option ((Cursor × Gap) ⊕ (Cursor × Gap)) :=
  let (cursor, gap) := state
  match cursor.peek with
  | none => some (.inr state)
  | some c =>
    if isSpace c then
      if gap.broken then
        if c == '\t' && (cursor.column : Int) < indent then none
        else some (.inl (cursor.skip 1, gap))
      else
        some (.inl (cursor.skip 1, { gap with spaces := gap.spaces ++ [c] }))
    else if isBreak c then
      let next :=
        if gap.broken then { gap with others := gap.others ++ cursor.breakText }
        else { gap with broken := true, spaces := [], first := cursor.breakText }
      some (.inl (cursor.skipBreak, next))
    else
      some (.inr state)

/-- Reads on over a gap. -/
def scan? (indent : Int) (cursor : Cursor) (gap : Gap) : Option (Cursor × Gap) :=
  repeatStep (step indent) cursor.steps (cursor, gap)

end Gap

/-! ### Plain scalars -/

/-- Whether a character ends a plain scalar in a flow collection. -/
def isFlowIndicator (c : Char) : Bool :=
  c == ',' || c == '[' || c == ']' || c == '\x7b' || c == '\x7d'

/-- The word of a plain scalar at the start of a text. In a flow collection a colon before an
indicator is refused. -/
def plainWord? (inFlow : Bool) : List Char → Option (List Char)
  | [] => some []
  | c :: cs =>
    let next := cs.head?
    if isSpace c || isBreak c then some []
    else if inFlow && c == ':' && next.any (fun d ↦ isFlowIndicator d || d == '?') then none
    else if c == ':' && endsWord next then some []
    else if inFlow && isFlowIndicator c then some []
    else (plainWord? inFlow cs).map (c :: ·)

/-- A plain scalar while it is read: the content so far and the gap after it. -/
structure PlainState where
  cursor : Cursor
  content : List Char
  gap : Gap

/-- Reads one word and the gap after it. -/
def plainStep (inFlow : Bool) (indent : Int) (state : PlainState) :
    Option (PlainState ⊕ PlainState) := do
  if state.cursor.atDocumentMarker || state.cursor.peek == some '#' then
    some (.inr state)
  else
    let word ← plainWord? inFlow state.cursor.rest
    let joined := if word = [] then state.content else state.content ++ state.gap.content ++ word
    let gapBefore := if word = [] then state.gap else Gap.empty
    let cursor := state.cursor.skip word.length
    if cursor.peek.any (fun c ↦ isSpace c || isBreak c) then
      let (cursor, gap) ← Gap.scan? indent cursor gapBefore
      let next : PlainState := ⟨cursor, joined, gap⟩
      if !inFlow && (cursor.column : Int) < indent then some (.inr next) else some (.inl next)
    else
      some (.inr ⟨cursor, joined, gapBefore⟩)

/-- Reads a plain scalar whose lines after the first start at column `indent` or later: the text
after it, its content, and whether a line break follows the last word. -/
def scanPlain? (inFlow : Bool) (indent : Int) (cursor : Cursor) :
    Option (Cursor × List Char × Bool) := do
  let final ← repeatStep (plainStep inFlow indent) cursor.steps ⟨cursor, [], Gap.empty⟩
  some (final.cursor, final.content, final.gap.broken)

/-! ### Quoted scalars -/

/-- How many hexadecimal digits follow an escape of this letter. -/
def escapeLength? (c : Char) : Option Nat :=
  match c with
  | 'x' => some 2
  | 'u' => some 4
  | 'U' => some 8
  | _ => none

/-- The character that an escape of one letter stands for. -/
def shortEscape? (c : Char) : Option Char :=
  match c with
  | '0' => some '\x00'
  | 'a' => some '\x07'
  | 'b' => some '\x08'
  | 't' => some '\t'
  | '\t' => some '\t'
  | 'n' => some '\n'
  | 'v' => some '\x0b'
  | 'f' => some '\x0c'
  | 'r' => some '\r'
  | 'e' => some '\x1b'
  | ' ' => some ' '
  | '"' => some '"'
  | '/' => some '/'
  | '\\' => some '\\'
  | 'N' => some '\u0085'
  | '_' => some '\u00a0'
  | 'L' => some '\u2028'
  | 'P' => some '\u2029'
  | _ => none

/-- A quoted scalar while it is read: the content so far, and whether a backslash has just escaped a
line break. -/
structure QuotedState where
  cursor : Cursor
  content : List Char
  escapedBreak : Bool

/-- Reads one character or escape of a word in quotes. -/
def quotedWordStep (single : Bool) (state : QuotedState) : Option (QuotedState ⊕ QuotedState) :=
  let cursor := state.cursor
  match cursor.peek, cursor.peekAt 1 with
  | none, _ => some (.inr state)
  | some c, next =>
    if isSpace c || isBreak c then
      some (.inr state)
    else if single && c == '\'' && next == some '\'' then
      some (.inl ⟨cursor.skip 2, state.content ++ ['\''], false⟩)
    else if c == (if single then '\'' else '"') then
      some (.inr state)
    else if !single && c == '\\' then
      match next with
      | none => none
      | some escaped =>
        if isBreak escaped then
          some (.inr ⟨(cursor.skip 1).skipBreak, state.content, true⟩)
        else
          match shortEscape? escaped, escapeLength? escaped with
          | some d, _ => some (.inl ⟨cursor.skip 2, state.content ++ [d], false⟩)
          | none, none => none
          | none, some length =>
            let digits := (cursor.rest.drop 2).take length
            match natOfHex? digits with
            | none => none
            | some n =>
              if digits.length < length || (0xD800 ≤ n && n ≤ 0xDFFF) || 0x10FFFF < n then none
              else some (.inl ⟨cursor.skip (2 + length), state.content ++ [Char.ofNat n], false⟩)
    else
      some (.inl ⟨cursor.skip 1, state.content ++ [c], false⟩)

/-- Reads one word in quotes and the gap after it. -/
def quotedStep (single : Bool) (state : Cursor × List Char) :
    Option ((Cursor × List Char) ⊕ (Cursor × List Char)) := do
  let (cursor, content) := state
  if cursor.atDocumentMarker || cursor.peek.isNone then none
  else
    let word ← repeatStep (quotedWordStep single) cursor.steps ⟨cursor, [], false⟩
    let joined := content ++ word.content
    if word.cursor.peek == some (if single then '\'' else '"') then
      some (.inr (word.cursor.skip 1, joined))
    else
      let (cursor, gap) ← Gap.scan? 0 word.cursor { Gap.empty with broken := word.escapedBreak }
      some (.inl (cursor, joined ++ gap.content))

/-- Reads a quoted scalar from its opening quote on: the text after it and its content. -/
def scanQuoted? (single : Bool) (cursor : Cursor) : Option (Cursor × List Char) :=
  repeatStep (quotedStep single) cursor.steps (cursor.skip 1, [])

/-! ### Block scalars -/

/-- What becomes of the breaks after the last line of a block scalar. -/
inductive Chomping where
  | strip
  | clip
  | keep
  deriving DecidableEq

/-- The header after the indicator of a block scalar: chomping and indentation, each at most once in
either order. -/
def blockHeader? (cursor : Cursor) : Option (Cursor × Chomping × Option Nat) :=
  let chomping? (cursor : Cursor) : Option Chomping :=
    match cursor.peek with
    | some '+' => some .keep
    | some '-' => some .strip
    | _ => none
  let indent? (cursor : Cursor) : Option Nat :=
    (cursor.peek.filter Char.isDigit).map fun c ↦ c.toNat - '0'.toNat
  match chomping? cursor with
  | some chomping =>
    match indent? (cursor.skip 1) with
    | some 0 => none
    | some indent => some (cursor.skip 2, chomping, some indent)
    | none => some (cursor.skip 1, chomping, none)
  | none =>
    match indent? cursor with
    | some 0 => none
    | some indent =>
      match chomping? (cursor.skip 1) with
      | some chomping => some (cursor.skip 2, chomping, some indent)
      | none => some (cursor.skip 1, .clip, some indent)
    | none => some (cursor, .clip, none)

/-- Goes over the indentation of one line and, if the line is empty, over its break. The state holds
the breaks so far and the furthest column reached. -/
def blockBreakStep (indent : Option Nat) (state : Cursor × List Char × Nat) :
    Option ((Cursor × List Char × Nat) ⊕ (Cursor × List Char × Nat)) :=
  let (cursor, breaks, furthest) := state
  let spaces := (cursor.run (· == ' ')).length
  let count :=
    match indent with
    | none => spaces
    | some n => min spaces (n - cursor.column)
  let inner := cursor.skip count
  let furthest := max furthest inner.column
  if indent.all (inner.column < ·) && inner.peek == some '\t' then none
  else if inner.peek.any isBreak then
    some (.inl (inner.skipBreak, breaks ++ inner.breakText, furthest))
  else
    some (.inr (inner, breaks, furthest))

/-- Goes over empty lines and the indentation of the next line. If the indentation is not yet known,
it is where the text starts, but more than that of the collection around. -/
def blockBreaks? (parent : Int) (indent : Option Nat) (cursor : Cursor) :
    Option (Cursor × List Char × Nat) := do
  let (cursor, breaks, furthest) ←
    repeatStep (blockBreakStep indent) cursor.steps (cursor, [], 0)
  some (cursor, breaks, indent.getD (max furthest (max (parent + 1) 1).toNat))

/-- A block scalar while it is read: the content so far, the break after it, the empty lines after
that, and whether the last line started with a space. -/
structure BlockState where
  cursor : Cursor
  content : List Char
  lastBreak : List Char
  breaks : List Char
  spaced : Bool

/-- Reads one line and the empty lines after it. -/
def blockStep (folded : Bool) (parent : Int) (indent : Nat) (state : BlockState) :
    Option (BlockState ⊕ BlockState) := do
  if state.cursor.column ≠ indent || state.cursor.peek.isNone then
    some (.inr state)
  else
    let spaced := state.cursor.peek.any isSpace
    let joint :=
      if folded && state.lastBreak = ['\n'] && !state.spaced && !spaced then
        if state.breaks = [] then [' '] else state.breaks
      else
        state.lastBreak ++ state.breaks
    let line := state.cursor.run (!isBreak ·)
    let lineEnd := state.cursor.skip line.length
    let (cursor, breaks, _) ← blockBreaks? parent (some indent) lineEnd.skipBreak
    some (.inl ⟨cursor, state.content ++ joint ++ line, lineEnd.breakText, breaks, spaced⟩)

/-- Reads a block scalar from its indicator on, inside a collection of the given indentation: the
text after it and its content. -/
def scanBlock? (folded : Bool) (parent : Int) (cursor : Cursor) :
    Option (Cursor × List Char) := do
  let (cursor, chomping, increment) ← blockHeader? (cursor.skip 1)
  let cursor ← cursor.skipLineEnd?
  let declared := increment.map fun n ↦ (max parent 0).toNat + n
  let (cursor, breaks, indent) ← blockBreaks? parent declared cursor
  let final ← repeatStep (blockStep folded parent indent) cursor.steps
    ⟨cursor, [], [], breaks, false⟩
  let tail :=
    match chomping with
    | .strip => []
    | .clip => final.lastBreak
    | .keep => final.lastBreak ++ final.breaks
  some (final.cursor, final.content ++ tail)

end FlowGate.Yaml

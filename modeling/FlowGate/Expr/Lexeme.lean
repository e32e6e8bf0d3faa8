import FlowGate.Expr.CompileError
import FlowGate.Number.Decimal
import FlowGate.Text.Blank
import FlowGate.Text.Bytes

/-!
# Splitting text into tokens

A token is read from its first character and what follows (`scan`); its lexeme is the text it takes
up. `tokenize` reads one token after another and skips blanks between them. `lexeme_append_rest`
says that a token takes up a nonempty piece of the text and leaves the rest as it was, so positions
are sums of lexeme lengths in bytes.
-/

set_option autoImplicit false

namespace FlowGate.Expr

/-- A token, the text it takes up and the text after it. -/
structure Scanned where
  token : Token
  lexeme : List Char
  rest : List Char

/-- Whether a character may start a name or keyword. -/
def startsWord (c : Char) : Bool :=
  c.isAlpha || c == '_'

/-- Whether a character may continue a name or keyword. -/
def continuesWord (c : Char) : Bool :=
  c.isAlphanum || c == '_'

/-- Reads a number from its first digit: an integer, or a double if a point and a digit follow the
digits. An integer literal has to fit 64 bits. -/
def scanNumber (c : Char) (cs : List Char) : Except LexFault Scanned :=
  let whole := c :: cs.takeWhile Char.isDigit
  let rest := cs.dropWhile Char.isDigit
  let integer : Except LexFault Scanned :=
    match Integer.ofInt? (natOfDigits whole) with
    | some n => .ok ⟨.int n, whole, rest⟩
    | none => .error (.invalidNumber (String.ofList whole))
  match rest with
  | '.' :: d :: more =>
    if d.isDigit then
      let fraction := d :: more.takeWhile Char.isDigit
      .ok ⟨.float (Decimal.ofDigits whole fraction).toFloat, whole ++ '.' :: fraction,
        more.dropWhile Char.isDigit⟩
    else
      integer
  | _ => integer

/-- What a character stands for after a backslash. -/
def unescape (c : Char) : Char :=
  if c = 'n' then '\n' else if c = 't' then '\t' else c

/-- Reads up to the closing quote: the content, the text taken up and the rest. -/
def scanQuoted (quote : Char) : List Char → Option (List Char × List Char × List Char)
  | [] => none
  | c :: cs =>
    if c = quote then
      some ([], [c], cs)
    else if c = '\\' then
      match cs with
      | [] => none
      | escaped :: more =>
        (scanQuoted quote more).map fun (content, taken, rest) ↦
          (unescape escaped :: content, c :: escaped :: taken, rest)
    else
      (scanQuoted quote cs).map fun (content, taken, rest) ↦ (c :: content, c :: taken, rest)

/-- The operator or bracket that starts with `c`, and whether the next character belongs to it. -/
def symbol? (c : Char) (next : Option Char) : Option (Token × Bool) :=
  match c with
  | '(' => some (.openParen, false)
  | ')' => some (.closeParen, false)
  | '[' => some (.openBracket, false)
  | ']' => some (.closeBracket, false)
  | '+' => some (.plus, false)
  | '-' => some (.minus, false)
  | '*' => some (.star, false)
  | '/' => some (.slash, false)
  | '%' => some (.percent, false)
  | '=' => if next = some '=' then some (.equal, true) else none
  | '!' => if next = some '=' then some (.notEqual, true) else some (.not, false)
  | '<' => if next = some '=' then some (.lessEqual, true) else some (.less, false)
  | '>' => if next = some '=' then some (.greaterEqual, true) else some (.greater, false)
  | '&' => if next = some '&' then some (.and, true) else none
  | '|' => if next = some '|' then some (.or, true) else none
  | _ => none

/-- Reads the token that starts with `c` and goes on into `cs`. -/
def scan (c : Char) (cs : List Char) : Except LexFault Scanned :=
  if c.isDigit then
    scanNumber c cs
  else if c = '\'' ∨ c = '"' then
    match scanQuoted c cs with
    | some (content, taken, rest) => .ok ⟨.string (String.ofList content), c :: taken, rest⟩
    | none => .error .unterminatedString
  else if startsWord c then
    let word := c :: cs.takeWhile continuesWord
    .ok ⟨.ofWord word, word, cs.dropWhile continuesWord⟩
  else
    match symbol? c cs.head? with
    | some (token, false) => .ok ⟨token, [c], cs⟩
    | some (token, true) => .ok ⟨token, c :: cs.take 1, cs.drop 1⟩
    | none => .error (.unexpectedChar c)

theorem scanQuoted_append {quote : Char} {cs content taken rest : List Char}
    (h : scanQuoted quote cs = some (content, taken, rest)) : taken ++ rest = cs := by
  fun_induction scanQuoted quote cs generalizing content taken rest with
  | case1 => cases h
  | case2 cs => cases h; rfl
  | case3 => cases h
  | case4 escaped more _ ih =>
    obtain ⟨⟨content', taken', rest'⟩, hmore, heq⟩ := Option.map_eq_some_iff.mp h
    cases heq
    simp [ih hmore]
  | case5 c cs _ _ ih =>
    obtain ⟨⟨content', taken', rest'⟩, hmore, heq⟩ := Option.map_eq_some_iff.mp h
    cases heq
    simp [ih hmore]

theorem scanNumber_append {c : Char} {cs : List Char} {scanned : Scanned}
    (h : scanNumber c cs = .ok scanned) : scanned.lexeme ++ scanned.rest = c :: cs := by
  simp only [scanNumber] at h
  split at h
  · rename_i d more hrest
    split at h
    · cases h
      simp only [List.cons_append, List.append_assoc, List.takeWhile_append_dropWhile]
      rw [← hrest, List.takeWhile_append_dropWhile]
    · split at h
      · cases h
        simp [List.takeWhile_append_dropWhile]
      · cases h
  · split at h
    · cases h
      simp [List.takeWhile_append_dropWhile]
    · cases h

/-- A token takes up a piece of the text and leaves the rest as it was. -/
theorem lexeme_append_rest {c : Char} {cs : List Char} {scanned : Scanned}
    (h : scan c cs = .ok scanned) : scanned.lexeme ++ scanned.rest = c :: cs := by
  unfold scan at h
  split at h
  · exact scanNumber_append h
  · split at h
    · split at h
      · rename_i hquoted
        cases h
        simpa using scanQuoted_append hquoted
      · cases h
    · split at h
      · cases h
        simp [List.takeWhile_append_dropWhile]
      · split at h
        · cases h
          rfl
        · cases h
          exact congrArg (c :: ·) (List.take_append_drop 1 cs)
        · cases h

/-- The first character belongs to the token. -/
theorem lexeme_ne_nil {c : Char} {cs : List Char} {scanned : Scanned}
    (h : scan c cs = .ok scanned) : scanned.lexeme ≠ [] := by
  unfold scan scanNumber at h
  grind

theorem length_rest_le {c : Char} {cs : List Char} {scanned : Scanned}
    (h : scan c cs = .ok scanned) : scanned.rest.length ≤ cs.length := by
  have hlength := congrArg List.length (lexeme_append_rest h)
  have hpositive := List.length_pos_iff.mpr (lexeme_ne_nil h)
  simp only [List.length_append, List.length_cons] at hlength
  omega

/-- The tokens of a text that starts at the byte offset `position`. -/
def tokenizeFrom (position : Nat) : List Char → Except CompileError (List TokenAt)
  | [] => .ok []
  | c :: cs =>
    if Text.isBlank c then
      tokenizeFrom (position + c.utf8Size) cs
    else
      match h : scan c cs with
      | .error fault => .error (.lexical fault position)
      | .ok scanned =>
        have := length_rest_le h
        (tokenizeFrom (position + byteLength scanned.lexeme) scanned.rest).map
          (⟨scanned.token, position⟩ :: ·)
termination_by cs => cs.length

/-- The tokens of a text. -/
def tokenize (text : List Char) : Except CompileError (List TokenAt) :=
  tokenizeFrom 0 text

end FlowGate.Expr

import FlowGate.Json.Numeral

/-!
# Reading JSON

A text is cut into tokens, and the tokens are read one at a time with a stack of the arrays and
objects that are open. Of equal keys of an object the last counts. At most `nestingLimit` arrays and
objects may be open at once.
-/

set_option autoImplicit false

namespace FlowGate.Json

/-- How many arrays and objects may be open at once. -/
def nestingLimit : Nat := 127

inductive Token where
  | null
  | bool (b : Bool)
  | number (n : Number)
  | string (s : String)
  | openBracket
  | closeBracket
  | openBrace
  | closeBrace
  | comma
  | colon

/-- Reads a string up to its closing quote. Code points beyond `0xFFFF` may be escaped as a pair of
surrogates; half a pair is refused. -/
def scanString? : List Char → Option (List Char × List Char)
  | [] => none
  | '"' :: rest => some ([], rest)
  | '\\' :: 'u' :: a :: b :: c :: d :: rest => do
    let unit ← natOfHex? [a, b, c, d]
    if 0xD800 ≤ unit ∧ unit < 0xDC00 then
      match rest with
      | '\\' :: 'u' :: e :: f :: g :: h :: more =>
        let low ← natOfHex? [e, f, g, h]
        if 0xDC00 ≤ low ∧ low < 0xE000 then
          let (content, after) ← scanString? more
          some (Char.ofNat (0x10000 + (unit - 0xD800) * 0x400 + (low - 0xDC00)) :: content, after)
        else
          none
      | _ => none
    else if 0xDC00 ≤ unit ∧ unit < 0xE000 then
      none
    else
      let (content, after) ← scanString? rest
      some (Char.ofNat unit :: content, after)
  | '\\' :: c :: rest => do
    let escaped ←
      match c with
      | '"' => some '"'
      | '\\' => some '\\'
      | '/' => some '/'
      | 'b' => some '\x08'
      | 'f' => some '\x0c'
      | 'n' => some '\n'
      | 'r' => some '\r'
      | 't' => some '\t'
      | _ => none
    let (content, after) ← scanString? rest
    some (escaped :: content, after)
  | c :: rest =>
    if c.toNat < 0x20 ∨ c = '\\' then none
    else do
      let (content, after) ← scanString? rest
      some (c :: content, after)

/-- Reads the token that starts with `c` and goes on into `cs`. -/
def scanToken? (c : Char) (cs : List Char) : Option (Token × List Char) :=
  match c with
  | '[' => some (.openBracket, cs)
  | ']' => some (.closeBracket, cs)
  | '\x7b' => some (.openBrace, cs)
  | '\x7d' => some (.closeBrace, cs)
  | ',' => some (.comma, cs)
  | ':' => some (.colon, cs)
  | '"' => (scanString? cs).map fun (content, rest) ↦ (.string (String.ofList content), rest)
  | 'n' => if "ull".toList.isPrefixOf cs then some (.null, cs.drop 3) else none
  | 't' => if "rue".toList.isPrefixOf cs then some (.bool true, cs.drop 3) else none
  | 'f' => if "alse".toList.isPrefixOf cs then some (.bool false, cs.drop 4) else none
  | c => do
    let (numeral, rest) ← Numeral.scan? (c :: cs)
    let n ← numeral.toNumber?
    some (.number n, rest)

/-- The tokens of a text. Every token takes up a character, so there are no more tokens than
`fuel`, the length of the text. -/
def tokensWithin : Nat → List Char → Option (List Token)
  | _, [] => some []
  | 0, _ => none
  | fuel + 1, c :: cs =>
    if isSpace c then
      tokensWithin fuel cs
    else do
      let (token, rest) ← scanToken? c cs
      let tokens ← tokensWithin fuel rest
      some (token :: tokens)

/-- The tokens of a text. -/
def tokens? (text : List Char) : Option (List Token) :=
  tokensWithin text.length text

/-- An open array with its items so far, the last first, or an open object with its fields so far
and the key of the next. -/
inductive Frame where
  | array (items : List Json)
  | object (fields : OrderedMap String Json) (key : String)

/-- What may come next. -/
inductive Expected where
  | value
  | firstItem
  | firstKey (fields : OrderedMap String Json)
  | key (fields : OrderedMap String Json)
  | colon (fields : OrderedMap String Json) (key : String)
  | continuation (done : Json)

structure State where
  frames : List Frame
  expected : Expected

/-- A token where a value may start. -/
def stepValue (frames : List Frame) (token : Token) : Option State :=
  match token with
  | .null => some ⟨frames, .continuation .null⟩
  | .bool b => some ⟨frames, .continuation (.bool b)⟩
  | .number n => some ⟨frames, .continuation (.number n)⟩
  | .string s => some ⟨frames, .continuation (.string s)⟩
  | .openBracket =>
    if frames.length < nestingLimit then some ⟨.array [] :: frames, .firstItem⟩ else none
  | .openBrace =>
    if frames.length < nestingLimit then
      some ⟨.object OrderedMap.empty "" :: frames, .firstKey OrderedMap.empty⟩
    else
      none
  | _ => none

/-- Reads one token. -/
def step (state : State) (token : Token) : Option State :=
  match state.expected, token, state.frames with
  | .value, _, frames => stepValue frames token
  | .firstItem, .closeBracket, _ :: frames => some ⟨frames, .continuation (.array [])⟩
  | .firstItem, _, frames => stepValue frames token
  | .firstKey fields, .closeBrace, _ :: frames => some ⟨frames, .continuation (.object fields)⟩
  | .firstKey fields, .string key, frames => some ⟨frames, .colon fields key⟩
  | .key fields, .string key, frames => some ⟨frames, .colon fields key⟩
  | .colon fields key, .colon, _ :: frames => some ⟨.object fields key :: frames, .value⟩
  | .continuation done, .comma, .array items :: frames =>
    some ⟨.array (done :: items) :: frames, .value⟩
  | .continuation done, .closeBracket, .array items :: frames =>
    some ⟨frames, .continuation (.array (done :: items).reverse)⟩
  | .continuation done, .comma, .object fields key :: frames =>
    some ⟨.object fields key :: frames, .key (fields.insert key done)⟩
  | .continuation done, .closeBrace, .object fields key :: frames =>
    some ⟨frames, .continuation (.object (fields.insert key done))⟩
  | _, _, _ => none

/-- The value written in a text. -/
def read? (text : String) : Option Json := do
  let tokens ← tokens? text.toList
  let final ← tokens.foldlM step ⟨[], .value⟩
  match final with
  | ⟨[], .continuation done⟩ => some done
  | _ => none

end FlowGate.Json

import FlowGate.Yaml.Scalar
import FlowGate.Yaml.Tag

/-!
# Tokens of YAML

A text is cut into tokens. Collections in block style are marked by indentation alone, so the
reader keeps the column of each open one and puts tokens where one starts and ends. A mapping key
in block style is only known as such at the colon after it: the reader remembers where a key could
have started and puts the tokens of the key there once the colon comes. A remembered key is good
for one line and 1024 bytes.
-/

set_option autoImplicit false

namespace FlowGate.Yaml

inductive Token where
  | version (major minor : Nat)
  | tagDirective (handle : String) (expansion : Tag)
  | documentStart
  | documentEnd
  | blockSequenceStart
  | blockMappingStart
  | blockEnd
  | flowSequenceStart
  | flowSequenceEnd
  | flowMappingStart
  | flowMappingEnd
  | blockEntry
  | flowEntry
  | key
  | value
  | aliasName (name : String)
  | anchor (name : String)
  | tag (handle : String) (suffix : Tag)
  | scalar (style : Style) (content : String)

/-- A place where a key may have started: the number of tokens before it and the position. A
required key is refused if no colon follows. -/
structure KeyStart where
  tokens : Nat
  index : Nat
  line : Nat
  column : Nat
  required : Bool

/-- What is known while a text is cut. There is one possible key for the block context and one for
each open flow collection, the innermost first. -/
structure Scanner where
  cursor : Cursor
  tokens : Array Token
  indent : Int
  outerIndents : List Int
  keys : List (Option KeyStart)
  keyAllowed : Bool

namespace Scanner

def start (text : List Char) : Scanner :=
  ⟨Cursor.start text, #[], -1, [], [none], true⟩

/-- Whether a flow collection is open. -/
def inFlow (scanner : Scanner) : Bool :=
  1 < scanner.keys.length

def emit (scanner : Scanner) (token : Token) : Scanner :=
  { scanner with tokens := scanner.tokens.push token }

def moveTo (scanner : Scanner) (cursor : Cursor) : Scanner :=
  { scanner with cursor }

def skip (scanner : Scanner) (count : Nat) : Scanner :=
  scanner.moveTo (scanner.cursor.skip count)

/-- Puts a token before those from number `at` on. -/
def insertAt (scanner : Scanner) (place : Nat) (token : Token) : Scanner :=
  { scanner with
    tokens := scanner.tokens.extract 0 place ++ #[token] ++
      scanner.tokens.extract place scanner.tokens.size }

/-- Opens a block collection at a column right of the current one, before token `place`. -/
def rollIndent (scanner : Scanner) (column place : Nat) (token : Token) : Scanner :=
  if !scanner.inFlow && scanner.indent < column then
    { scanner.insertAt place token with
      indent := column
      outerIndents := scanner.indent :: scanner.outerIndents }
  else
    scanner

/-- How many block collections start right of a column, and the indentation that is left. -/
def unrolled (column : Int) : Int → List Int → Nat × Int × List Int
  | indent, outer :: rest =>
    if column < indent then
      let (closed, left) := unrolled column outer rest
      (closed + 1, left)
    else
      (0, indent, outer :: rest)
  | indent, [] => (0, indent, [])

/-- Closes the block collections that start right of a column. -/
def unrollIndent (scanner : Scanner) (column : Int) : Scanner :=
  if scanner.inFlow then scanner
  else
    let (closed, indent, outerIndents) := unrolled column scanner.indent scanner.outerIndents
    { scanner with
      tokens := scanner.tokens ++ Array.replicate closed Token.blockEnd
      indent, outerIndents }

/-- Forgets the possible key of the current context. A required one is refused. -/
def dropKey? (scanner : Scanner) : Option Scanner :=
  match scanner.keys with
  | some key :: outer => if key.required then none else some { scanner with keys := none :: outer }
  | _ => some scanner

/-- Remembers the current place as that of a possible key, if a key may start here. -/
def saveKey? (scanner : Scanner) : Option Scanner :=
  if scanner.keyAllowed then do
    let scanner ← scanner.dropKey?
    let cursor := scanner.cursor
    let required := !scanner.inFlow && scanner.indent == cursor.column
    let key : KeyStart :=
      ⟨scanner.tokens.size, cursor.index, cursor.line, cursor.column, required⟩
    some { scanner with keys := some key :: scanner.keys.drop 1 }
  else
    some scanner

/-- Forgets the possible keys that are too far back. A required one is refused. -/
def dropStaleKeys? (scanner : Scanner) : Option Scanner := do
  let keys ← scanner.keys.mapM fun key ↦
    match key with
    | none => some none
    | some start =>
      if start.line < scanner.cursor.line || start.index + 1024 < scanner.cursor.index then
        if start.required then none else some none
      else
        some (some start)
  some { scanner with keys }

def allowKey (scanner : Scanner) (keyAllowed : Bool) : Scanner :=
  { scanner with keyAllowed }

/-- Goes over spaces, comments and breaks before the next token. A break in block style allows a
key. Tabs may stand only where no key can start, and a byte order mark at the start of a line. -/
def gapStep (scanner : Scanner) : Option (Scanner ⊕ Scanner) :=
  let cursor := scanner.cursor
  let cursor :=
    if cursor.column == 0 && cursor.peek == some '\ufeff' then cursor.skip 1 else cursor
  let tabs := scanner.inFlow || !scanner.keyAllowed
  let cursor := cursor.skipRun fun c ↦ c == ' ' || (tabs && c == '\t')
  let cursor := if cursor.peek == some '#' then cursor.skipRun (!isBreak ·) else cursor
  if cursor.peek.any isBreak then
    some (.inl { scanner with
      cursor := cursor.skipBreak, keyAllowed := scanner.keyAllowed || !scanner.inFlow })
  else
    some (.inr (scanner.moveTo cursor))

/-- Whether a character may stand in an anchor, a directive or a tag handle. -/
def isWordChar (c : Char) : Bool :=
  c.isAlphanum || c == '_' || c == '-'

/-- Reads an anchor or alias. -/
def scanAnchor? (scanner : Scanner) (isAlias : Bool) : Option Scanner := do
  let scanner ← scanner.saveKey?
  let cursor := scanner.cursor.skip 1
  let name := cursor.run isWordChar
  let after := cursor.skip name.length
  let ends := endsWord after.peek || after.peek.any fun c ↦
    "?:,]\x7d%@\u0060".toList.contains c
  if name = [] || !ends then none
  else
    let text := String.ofList name
    let token := if isAlias then Token.aliasName text else Token.anchor text
    some (((scanner.allowKey false).moveTo after).emit token)

/-! ### Tags and directives -/

/-- Whether a character may stand in a tag as it is; `wide` also takes flow indicators. -/
def isTagChar (wide : Bool) (c : Char) : Bool :=
  isWordChar c || ";/?:@&=+$.!~*'()".toList.contains c || (wide && ",[]".toList.contains c)

/-- A byte written as a percent escape at the start of a text. -/
def escapedByte? : List Char → Option (UInt8 × List Char)
  | '%' :: a :: b :: rest => (natOfHex? [a, b]).map fun n ↦ (n.toUInt8, rest)
  | _ => none

/-- How many bytes go on with a character that starts with this byte. -/
def continuationCount? (first : UInt8) : Option Nat :=
  if first < 0x80 then some 0
  else if first < 0xC0 then none
  else if first < 0xE0 then some 1
  else if first < 0xF0 then some 2
  else if first < 0xF8 then some 3
  else none

/-- Reads escapes of bytes that go on with a character. -/
def escapedContinuation? : Nat → List Char → Option (List UInt8 × List Char)
  | 0, rest => some ([], rest)
  | count + 1, text => do
    let (byte, rest) ← escapedByte? text
    if byte < 0x80 || 0xC0 ≤ byte then none
    else
      let (bytes, final) ← escapedContinuation? count rest
      some (byte :: bytes, final)

/-- Reads the escapes of the bytes of one character. The bytes need not make up a code point. -/
def escapedCharacter? (text : List Char) : Option (List UInt8 × List Char) := do
  let (first, rest) ← escapedByte? text
  let (bytes, final) ← escapedContinuation? (← continuationCount? first) rest
  some (first :: bytes, final)

/-- Reads a run of tag characters and escapes, for at most `fuel` characters: content and rest. -/
def tagBytes? (wide : Bool) : Nat → List Char → Option (List UInt8 × List Char)
  | 0, rest => some ([], rest)
  | _, [] => some ([], [])
  | fuel + 1, c :: rest =>
    if c = '%' then do
      let (bytes, after) ← escapedCharacter? (c :: rest)
      let (content, final) ← tagBytes? wide fuel after
      some (bytes ++ content, final)
    else if isTagChar wide c then do
      let (content, final) ← tagBytes? wide fuel rest
      some (c.toNat.toUInt8 :: content, final)
    else
      some ([], c :: rest)

/-- A run of tag characters at a cursor, with the cursor after it. -/
def scanTagBytes? (wide : Bool) (cursor : Cursor) : Option (List UInt8 × Cursor) := do
  let (content, rest) ← tagBytes? wide cursor.steps cursor.rest
  some (content, cursor.skip (cursor.rest.length - rest.length))

/-- A tag handle at a cursor: `!`, with word characters and another `!` if they are there. -/
def scanHandle? (cursor : Cursor) : Option (List Char × Cursor) :=
  if cursor.peek == some '!' then
    let word := (cursor.skip 1).run isWordChar
    let after := cursor.skip (1 + word.length)
    if after.peek == some '!' then some ('!' :: word ++ ['!'], after.skip 1)
    else some ('!' :: word, after)
  else
    none

/-- The handle and suffix of a tag. A tag without a handle of its own is local, and a lone mark is
a whole tag. -/
def scanTagParts? (cursor : Cursor) : Option (String × Tag × Cursor) := do
  if cursor.peekAt 1 == some '<' then
    let (suffix, after) ← scanTagBytes? true (cursor.skip 2)
    if suffix = [] || after.peek != some '>' then none
    else some ("", Tag.ofBytes suffix, after.skip 1)
  else
    let (handle, afterHandle) ← scanHandle? cursor
    let (content, after) ← scanTagBytes? false afterHandle
    if 1 < handle.length && handle.getLast? == some '!' then
      if content = [] then none else some (String.ofList handle, Tag.ofBytes content, after)
    else
      let suffix := Tag.ofString (String.ofList (handle.drop 1)) ++ Tag.ofBytes content
      if suffix = Tag.ofBytes [] then some ("", Tag.ofString "!", after)
      else some ("!", suffix, after)

/-- Reads a tag. -/
def scanTag? (scanner : Scanner) : Option Scanner := do
  let scanner ← scanner.saveKey?
  let (handle, suffix, after) ← scanTagParts? scanner.cursor
  if endsWord after.peek || (scanner.inFlow && after.peek == some ',') then
    some (((scanner.allowKey false).moveTo after).emit (.tag handle suffix))
  else
    none

/-- A number of a version, of at most nine digits. -/
def scanVersionNumber? (cursor : Cursor) : Option (Nat × Cursor) :=
  let digits := cursor.run Char.isDigit
  if digits = [] || 9 < digits.length then none
  else some (natOfDigits digits, cursor.skip digits.length)

/-- Reads a directive. -/
def scanDirective? (scanner : Scanner) : Option Scanner := do
  let scanner ← (scanner.unrollIndent (-1)).dropKey?
  let cursor := scanner.cursor.skip 1
  let name := String.ofList (cursor.run isWordChar)
  let after := cursor.skipRun isWordChar
  if !endsWord after.peek then none
  else
    let argument := after.skipRun isSpace
    let (token, final) : Token × Cursor ←
      if name = "YAML" then do
        let (major, point) ← scanVersionNumber? argument
        if point.peek != some '.' then none
        else
          let (minor, final) ← scanVersionNumber? (point.skip 1)
          some (.version major minor, final)
      else if name = "TAG" then do
        let (handle, afterHandle) ← scanHandle? argument
        let whole := handle == ['!'] || (1 < handle.length && handle.getLast? == some '!')
        if !whole || !afterHandle.peek.any isSpace then none
        else
          let (expansion, final) ← scanTagBytes? true (afterHandle.skipRun isSpace)
          if expansion = [] || !endsWord final.peek then none
          else some (.tagDirective (String.ofList handle) (Tag.ofBytes expansion), final)
      else
        none
    let lineEnd ← final.skipLineEnd?
    some (((scanner.allowKey false).moveTo lineEnd).emit token)

/-! ### The next token -/

/-- Reads a document marker. -/
def scanDocumentMarker? (scanner : Scanner) (token : Token) : Option Scanner := do
  let scanner ← (scanner.unrollIndent (-1)).dropKey?
  some (((scanner.allowKey false).skip 3).emit token)

def openFlow? (scanner : Scanner) (token : Token) : Option Scanner := do
  let scanner ← scanner.saveKey?
  some (({ scanner with keys := none :: scanner.keys, keyAllowed := true }.skip 1).emit token)

def closeFlow? (scanner : Scanner) (token : Token) : Option Scanner := do
  let scanner ← scanner.dropKey?
  let keys := if scanner.inFlow then scanner.keys.drop 1 else scanner.keys
  some (({ scanner with keys, keyAllowed := false }.skip 1).emit token)

def flowEntry? (scanner : Scanner) : Option Scanner := do
  let scanner ← scanner.dropKey?
  some (((scanner.allowKey true).skip 1).emit .flowEntry)

/-- Opens a block collection here, where one may start. -/
def openBlock? (scanner : Scanner) (token : Token) : Option Scanner :=
  if scanner.inFlow then some scanner
  else if scanner.keyAllowed then
    some (scanner.rollIndent scanner.cursor.column scanner.tokens.size token)
  else
    none

def blockEntry? (scanner : Scanner) : Option Scanner := do
  let scanner ← scanner.openBlock? .blockSequenceStart
  let scanner ← scanner.dropKey?
  some (((scanner.allowKey true).skip 1).emit .blockEntry)

def keyIndicator? (scanner : Scanner) : Option Scanner := do
  let scanner ← scanner.openBlock? .blockMappingStart
  let scanner ← scanner.dropKey?
  some (((scanner.allowKey !scanner.inFlow).skip 1).emit .key)

/-- A colon makes what was remembered a key. -/
def valueIndicator? (scanner : Scanner) : Option Scanner :=
  match scanner.keys with
  | some start :: outer =>
    let keyed := (scanner.insertAt start.tokens .key).rollIndent start.column start.tokens
      .blockMappingStart
    some (({ keyed with keys := none :: outer, keyAllowed := false }.skip 1).emit .value)
  | _ => do
    let scanner ← scanner.openBlock? .blockMappingStart
    some (((scanner.allowKey !scanner.inFlow).skip 1).emit .value)

def blockScalar? (scanner : Scanner) (folded : Bool) : Option Scanner := do
  let scanner ← scanner.dropKey?
  let (after, content) ← scanBlock? folded scanner.indent scanner.cursor
  some (((scanner.allowKey true).moveTo after).emit
    (.scalar (if folded then .folded else .literal) (String.ofList content)))

def quotedScalar? (scanner : Scanner) (single : Bool) : Option Scanner := do
  let scanner ← scanner.saveKey?
  let (after, content) ← scanQuoted? single scanner.cursor
  some (((scanner.allowKey false).moveTo after).emit
    (.scalar (if single then .singleQuoted else .doubleQuoted) (String.ofList content)))

def plainScalar? (scanner : Scanner) : Option Scanner := do
  let scanner ← scanner.saveKey?
  let (after, content, broken) ← scanPlain? scanner.inFlow (scanner.indent + 1) scanner.cursor
  some (((scanner.allowKey broken).moveTo after).emit (.scalar .plain (String.ofList content)))

/-- Whether a plain scalar may start with `c` before `next`. -/
def startsPlain (inFlow : Bool) (c : Char) (next : Option Char) : Bool :=
  if c == '-' then !next.any isSpace
  else if c == '?' || c == ':' then !inFlow && !endsWord next
  else !(",[]\x7b\x7d#&*!|>'\"%@\u0060".toList.contains c || isSpace c || isBreak c)

/-- The token that starts with `c`, which is the next character. -/
def scanFrom? (scanner : Scanner) (c : Char) : Option Scanner :=
  let cursor := scanner.cursor
  let next := cursor.peekAt 1
  let inFlow := scanner.inFlow
  if cursor.column == 0 && c == '%' then scanner.scanDirective?
  else if cursor.atDocumentMarker then
    scanner.scanDocumentMarker? (if c == '-' then .documentStart else .documentEnd)
  else if c == '[' then scanner.openFlow? .flowSequenceStart
  else if c == '\x7b' then scanner.openFlow? .flowMappingStart
  else if c == ']' then scanner.closeFlow? .flowSequenceEnd
  else if c == '\x7d' then scanner.closeFlow? .flowMappingEnd
  else if c == ',' then scanner.flowEntry?
  else if c == '-' && endsWord next then scanner.blockEntry?
  else if c == '?' && (inFlow || endsWord next) then scanner.keyIndicator?
  else if c == ':' && (inFlow || endsWord next) then scanner.valueIndicator?
  else if c == '*' then scanner.scanAnchor? true
  else if c == '&' then scanner.scanAnchor? false
  else if c == '!' then scanner.scanTag?
  else if c == '|' && !inFlow then scanner.blockScalar? false
  else if c == '>' && !inFlow then scanner.blockScalar? true
  else if c == '\'' then scanner.quotedScalar? true
  else if c == '"' then scanner.quotedScalar? false
  else if startsPlain inFlow c next then scanner.plainScalar?
  else none

/-- Reads one token, or closes all blocks at the end of the text. -/
def step (scanner : Scanner) : Option (Scanner ⊕ Array Token) := do
  let scanner ← repeatStep gapStep scanner.cursor.steps scanner
  let scanner ← scanner.dropStaleKeys?
  match scanner.cursor.peek with
  | none =>
    let scanner ← (scanner.unrollIndent (-1)).dropKey?
    some (.inr scanner.tokens)
  | some c =>
    let scanner ← (scanner.unrollIndent scanner.cursor.column).scanFrom? c
    some (.inl scanner)

end Scanner

/-- Whether YAML allows a character in a text. -/
def isAllowed (c : Char) : Bool :=
  let n := c.toNat
  n == 0x09 || n == 0x0A || n == 0x0D || (0x20 ≤ n && n ≤ 0x7E) || n == 0x85 ||
    (0xA0 ≤ n && n ≤ 0xFFFD) || 0x10000 ≤ n

/-- The tokens of a text. -/
def tokens? (text : String) : Option (Array Token) :=
  let chars := text.toList
  if chars.all isAllowed then
    let scanner := Scanner.start chars
    repeatStep Scanner.step scanner.cursor.steps scanner
  else
    none

end FlowGate.Yaml

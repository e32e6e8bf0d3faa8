import FlowGate.Yaml.Node
import FlowGate.Yaml.Token

/-!
# Reading documents of YAML

The tokens of a text make up one document (`Document.read?`). Tags are expanded by the directives of
the document. An anchor gets as its number how many names anchors have had before it. So when a name
is put on a second node, the next new name gets the same number, and from then on the aliases of
both stand for the same node.
-/

set_option autoImplicit false

namespace FlowGate.Yaml

/-- A number given to an anchor, and how many anchors came before it. -/
structure Anchor where
  number : Nat
  place : Nat

/-- The tokens that are left, the expansions of tag handles, the numbers of the names of anchors,
how many anchors there were, and the nodes that they are on as far as these have been read, the
last anchor first. -/
structure Reader where
  tokens : List Token
  handles : List (String × Tag)
  numbers : List (String × Nat)
  anchorCount : Nat
  anchored : List (Anchor × Node)

namespace Reader

def advance (reader : Reader) : Reader :=
  { reader with tokens := reader.tokens.drop 1 }

/-- Numbers the anchor of the node that starts here. -/
def openAnchor (reader : Reader) (name : Option String) : Reader × Option Anchor :=
  match name with
  | none => (reader, none)
  | some name =>
    let number := reader.numbers.length
    ({ reader with
        numbers := (name, number) :: reader.numbers.filter (·.1 ≠ name)
        anchorCount := reader.anchorCount + 1 },
      some ⟨number, reader.anchorCount⟩)

/-- Records the node that an anchor was put on, behind those with later anchors. -/
def closeAnchor (reader : Reader) (anchor : Option Anchor) (node : Node) : Reader :=
  match anchor with
  | none => reader
  | some anchor =>
    let isLater (other : Anchor × Node) : Bool := anchor.place < other.1.place
    { reader with
      anchored := reader.anchored.takeWhile isLater ++
        (anchor, node) :: reader.anchored.dropWhile isLater }

/-- The full tag. -/
def expandTag? (reader : Reader) (handle : String) (suffix : Tag) : Option Tag :=
  if handle = "" then some suffix
  else (reader.handles.lookup handle).map (· ++ suffix)

/-- The anchor and tag before a node, each at most once in either order. -/
def properties? (reader : Reader) : Option (Option String × Option Tag × Reader) :=
  match reader.tokens with
  | .anchor name :: .tag handle suffix :: rest
  | .tag handle suffix :: .anchor name :: rest => do
    let tag ← reader.expandTag? handle suffix
    some (some name, some tag, { reader with tokens := rest })
  | .anchor name :: rest => some (some name, none, { reader with tokens := rest })
  | .tag handle suffix :: rest => do
    let tag ← reader.expandTag? handle suffix
    some (none, some tag, { reader with tokens := rest })
  | _ => some (none, none, reader)

/-- Whether the next token is one of these. -/
def next (reader : Reader) (p : Token → Bool) : Bool :=
  reader.tokens.head?.any p

def isValue : Token → Bool
  | .value => true
  | _ => false

def isBlockEnd : Token → Bool
  | .blockEnd => true
  | _ => false

def isBlockEntry : Token → Bool
  | .blockEntry => true
  | _ => false

def isFlowEntry : Token → Bool
  | .flowEntry => true
  | _ => false

/-- Whether a token ends a part of a block collection. -/
def endsBlockPart : Token → Bool
  | .key | .value | .blockEnd => true
  | _ => false

def endsFlowSequencePart : Token → Bool
  | .flowEntry | .flowSequenceEnd => true
  | _ => false

def endsFlowMappingPart : Token → Bool
  | .flowEntry | .flowMappingEnd => true
  | _ => false

/-- A node is in block style where block collections may start, and after a key a block sequence
need not be indented. -/
inductive Context where
  | block (unindented : Bool)
  | flow

mutual

/-- Reads a node. Every call of these functions either takes up a token or is followed by one that
does, so `fuel` is bounded by the number of tokens. -/
def node? (fuel : Nat) (context : Context) (reader : Reader) : Option (Node × Reader) :=
  match fuel with
  | 0 => none
  | fuel + 1 =>
    match reader.tokens with
    | .aliasName name :: _ => do
      let number ← reader.numbers.lookup name
      some (Node.aliased number, reader.advance)
    | _ => do
      let (anchor, tag, reader) ← reader.properties?
      let (reader, place) := reader.openAnchor anchor
      let (node, reader) ←
        match reader.tokens, context with
        | .blockEntry :: _, .block true => do
          let (items, reader) ← unindentedItems? fuel reader
          some (Node.sequence tag items, reader)
        | .scalar style content :: _, _ =>
          some (Node.scalar style tag content, reader.advance)
        | .flowSequenceStart :: _, _ => do
          let (items, reader) ← flowItems? fuel true reader.advance
          some (Node.sequence tag items, reader)
        | .flowMappingStart :: _, _ => do
          let (entries, reader) ← flowEntries? fuel true reader.advance
          some (Node.mapping tag entries, reader)
        | .blockSequenceStart :: _, .block _ => do
          let (items, reader) ← blockItems? fuel reader.advance
          some (Node.sequence tag items, reader)
        | .blockMappingStart :: _, .block _ => do
          let (entries, reader) ← blockEntries? fuel reader.advance
          some (Node.mapping tag entries, reader)
        | _, _ =>
          if anchor.isSome || tag.isSome then some (Node.scalar .plain tag "", reader) else none
      some (node, reader.closeAnchor place node)

/-- The items of a block sequence up to its end. -/
def blockItems? (fuel : Nat) (reader : Reader) : Option (List Node × Reader) :=
  match fuel with
  | 0 => none
  | fuel + 1 =>
    match reader.tokens with
    | .blockEnd :: _ => some ([], reader.advance)
    | .blockEntry :: _ => do
      let reader := reader.advance
      let (item, reader) ←
        if reader.next fun t ↦ isBlockEntry t || isBlockEnd t then
          some (Node.blank, reader)
        else
          node? fuel (.block false) reader
      let (items, reader) ← blockItems? fuel reader
      some (item :: items, reader)
    | _ => none

/-- The items of a block sequence that is not indented, as far as they go. -/
def unindentedItems? (fuel : Nat) (reader : Reader) : Option (List Node × Reader) :=
  match fuel with
  | 0 => none
  | fuel + 1 =>
    match reader.tokens with
    | .blockEntry :: _ => do
      let reader := reader.advance
      let (item, reader) ←
        if reader.next fun t ↦ isBlockEntry t || endsBlockPart t then some (Node.blank, reader)
        else node? fuel (.block false) reader
      let (items, reader) ← unindentedItems? fuel reader
      some (item :: items, reader)
    | _ => some ([], reader)

/-- The keys and values of a block mapping up to its end. -/
def blockEntries? (fuel : Nat) (reader : Reader) : Option (List (Node × Node) × Reader) :=
  match fuel with
  | 0 => none
  | fuel + 1 =>
    match reader.tokens with
    | .blockEnd :: _ => some ([], reader.advance)
    | .key :: _ => do
      let reader := reader.advance
      let (key, reader) ←
        if reader.next endsBlockPart then some (Node.blank, reader)
        else node? fuel (.block true) reader
      let (value, reader) ←
        if reader.next isValue then
          let reader := reader.advance
          if reader.next endsBlockPart then some (Node.blank, reader)
          else node? fuel (.block true) reader
        else
          some (Node.blank, reader)
      let (entries, reader) ← blockEntries? fuel reader
      some ((key, value) :: entries, reader)
    | _ => none

/-- The items of a flow sequence up to its end. A key alone in it is a mapping of one entry. -/
def flowItems? (fuel : Nat) (first : Bool) (reader : Reader) : Option (List Node × Reader) :=
  match fuel with
  | 0 => none
  | fuel + 1 =>
    match reader.tokens with
    | .flowSequenceEnd :: _ => some ([], reader.advance)
    | _ => do
      let reader ←
        if first then some reader
        else if reader.next isFlowEntry then some reader.advance
        else none
      match reader.tokens with
      | .flowSequenceEnd :: _ => some ([], reader.advance)
      | .key :: _ => do
        let reader := reader.advance
        let (key, reader) ←
          if reader.next fun t ↦ isValue t || endsFlowSequencePart t then
            some (Node.blank, reader.advance)
          else
            node? fuel .flow reader
        let (value, reader) ←
          if reader.next isValue then
            let reader := reader.advance
            if reader.next endsFlowSequencePart then some (Node.blank, reader)
            else node? fuel .flow reader
          else
            some (Node.blank, reader)
        let (items, reader) ← flowItems? fuel false reader
        some (Node.mapping none [(key, value)] :: items, reader)
      | _ => do
        let (item, reader) ← node? fuel .flow reader
        let (items, reader) ← flowItems? fuel false reader
        some (item :: items, reader)

/-- The keys and values of a flow mapping up to its end. -/
def flowEntries? (fuel : Nat) (first : Bool) (reader : Reader) :
    Option (List (Node × Node) × Reader) :=
  match fuel with
  | 0 => none
  | fuel + 1 =>
    match reader.tokens with
    | .flowMappingEnd :: _ => some ([], reader.advance)
    | _ => do
      let reader ←
        if first then some reader
        else if reader.next isFlowEntry then some reader.advance
        else none
      match reader.tokens with
      | .flowMappingEnd :: _ => some ([], reader.advance)
      | .key :: _ => do
        let reader := reader.advance
        let (key, reader) ←
          if reader.next fun t ↦ isValue t || endsFlowMappingPart t then some (Node.blank, reader)
          else node? fuel .flow reader
        let (value, reader) ←
          if reader.next isValue then
            let reader := reader.advance
            if reader.next endsFlowMappingPart then some (Node.blank, reader)
            else node? fuel .flow reader
          else
            some (Node.blank, reader)
        let (entries, reader) ← flowEntries? fuel false reader
        some ((key, value) :: entries, reader)
      | _ => do
        let (key, reader) ← node? fuel .flow reader
        let (entries, reader) ← flowEntries? fuel false reader
        some ((key, Node.blank) :: entries, reader)

end

/-! ### The document -/

/-- The tag handles that need no directive. -/
def defaultHandles : List (String × Tag) :=
  [("!", Tag.ofString "!"), ("!!", Tag.core "")]

/-- Reads the directives before a document. The version may be given once, and is 1.1 or 1.2; a
handle may be declared once. -/
def directives? (versioned : Bool) (declared : List (String × Tag)) :
    List Token → Option (List (String × Tag) × List Token)
  | .version major minor :: rest =>
    if versioned || major ≠ 1 || (minor ≠ 1 && minor ≠ 2) then none
    else directives? true declared rest
  | .tagDirective handle expansion :: rest =>
    if (declared.lookup handle).isSome then none
    else directives? versioned ((handle, expansion) :: declared) rest
  | rest => some (declared ++ defaultHandles, rest)

/-- Whether a token starts or ends a document. -/
def endsDocument : Token → Bool
  | .version .. | .tagDirective .. | .documentStart | .documentEnd => true
  | _ => false

/-- The content of a document, up to the markers after it. -/
def document? (handles : List (String × Tag)) (explicit : Bool) (tokens : List Token) :
    Option (Document × List Token) :=
  if explicit && tokens.head?.all endsDocument then some (⟨Node.blank, []⟩, tokens)
  else
    let reader : Reader := ⟨tokens, handles, [], 0, []⟩
    (node? (2 * tokens.length + 2) (.block false) reader).map fun (root, final) ↦
      (⟨root, final.anchored.map fun (anchor, node) ↦ (anchor.number, node)⟩, final.tokens)

/-- Whether only document end markers are left. -/
def onlyEnds : List Token → Bool
  | .documentEnd :: rest => onlyEnds rest
  | [] => true
  | _ => false

end Reader

/-- Reads the document in a text. A text without any gives `none` inside. -/
def Document.read? (text : String) : Option (Option Document) := do
  let tokens ← tokens? text
  match tokens.toList with
  | [] => some none
  | first => do
    let (handles, afterDirectives) ← Reader.directives? false [] first
    let (document, left) ←
      match afterDirectives with
      | .documentStart :: rest => Reader.document? handles true rest
      | rest =>
        if rest.length = first.length then Reader.document? handles false rest else none
    if Reader.onlyEnds left then some (some document) else none

end FlowGate.Yaml

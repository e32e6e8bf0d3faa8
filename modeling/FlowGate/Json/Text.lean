import FlowGate.Json.Basic
import FlowGate.Number.Layout

/-!
# JSON as text

`Json.compact` writes a value without spaces, `Json.pretty` with one entry to a line and two spaces
of indentation for each level. Object keys come in ascending order. In strings, quotes, backslashes
and control characters are escaped and nothing else.
-/

set_option autoImplicit false

namespace FlowGate.Json

open OrderedMap

def Number.text : Number → String
  | integer n _ => toString n
  | double x _ => Layout.json.render x

/-- A character as it stands in a JSON string. -/
def escape (c : Char) : List Char :=
  match c with
  | '"' => ['\\', '"']
  | '\\' => ['\\', '\\']
  | '\x08' => ['\\', 'b']
  | '\x0c' => ['\\', 'f']
  | '\n' => ['\\', 'n']
  | '\r' => ['\\', 'r']
  | '\t' => ['\\', 't']
  | c =>
    if c.toNat < 0x20 then
      ['\\', 'u', '0', '0', Nat.digitChar (c.toNat / 16), Nat.digitChar (c.toNat % 16)]
    else
      [c]

def quote (s : String) : String :=
  String.ofList ('"' :: s.toList.flatMap escape ++ ['"'])

/-- Parts between brackets, with commas between them. -/
def enclosed (left : String) (parts : List String) (right : String) : String :=
  left ++ String.intercalate "," parts ++ right

mutual

/-- The text of a value without spaces. -/
def compact : Json → String
  | null => "null"
  | bool b => if b then "true" else "false"
  | number n => n.text
  | string s => quote s
  | array items => enclosed "[" (compactItems items) "]"
  | object fields => enclosed "\x7b" (compactFields fields) "\x7d"

def compactItems : List Json → List String
  | [] => []
  | item :: rest => item.compact :: compactItems rest

def compactFields {low : Option String} : Entries String Json low → List String
  | .nil => []
  | .cons key _ value rest => (quote key ++ ":" ++ value.compact) :: compactFields rest

end

/-- Parts between brackets, each on a line of its own at the given depth. -/
def spread (depth : Nat) (left : String) (parts : List String) (right : String) : String :=
  let newline (d : Nat) : String := String.ofList ('\n' :: List.replicate (2 * d) ' ')
  if parts.isEmpty then left ++ right
  else
    left ++ newline (depth + 1) ++ String.intercalate ("," ++ newline (depth + 1)) parts ++
      newline depth ++ right

mutual

/-- The text of a value over several lines, inside `depth` brackets. -/
def prettyAt (depth : Nat) : Json → String
  | null => "null"
  | bool b => if b then "true" else "false"
  | number n => n.text
  | string s => quote s
  | array items => spread depth "[" (prettyItems (depth + 1) items) "]"
  | object fields => spread depth "\x7b" (prettyFields (depth + 1) fields) "\x7d"

def prettyItems (depth : Nat) : List Json → List String
  | [] => []
  | item :: rest => item.prettyAt depth :: prettyItems depth rest

def prettyFields (depth : Nat) {low : Option String} : Entries String Json low → List String
  | .nil => []
  | .cons key _ value rest =>
    (quote key ++ ": " ++ value.prettyAt depth) :: prettyFields depth rest

end

/-- The text of a value over several lines. -/
def pretty (value : Json) : String :=
  value.prettyAt 0

end FlowGate.Json

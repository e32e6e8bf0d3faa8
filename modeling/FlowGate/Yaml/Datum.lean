import FlowGate.Json.Basic
import FlowGate.Yaml.Visit

/-!
# Data in YAML

What a node stands for where no type is asked for. A plain scalar is null, a boolean or a number
if it is written as one, and else a string; any other scalar is a string, unless a tag says
otherwise. A node with a local tag that has a name, an integer that 64 bits cannot hold and nesting
deeper than `nestingLimit` are refused.
-/

set_option autoImplicit false

namespace FlowGate.Yaml

inductive Datum where
  | null
  | bool (b : Bool)
  | natural (n : Nat)
  /-- An integer written with a minus: `-n`. -/
  | negated (n : Nat)
  | float (x : Float)
  | string (s : String)
  | sequence (items : List Datum)
  | mapping (entries : List (Datum × Datum))

/-- How deep collections may nest. -/
def nestingLimit : Nat := 128

/-! ### Scalars -/

/-- An integer that 64 bits hold, signed if it has a minus. -/
def Datum.ofInteger? (n : WrittenInteger) : Option Datum :=
  if n.negative then if n.magnitude ≤ 1 <<< 63 then some (.negated n.magnitude) else none
  else if n.magnitude < UInt64.size then some (.natural n.magnitude)
  else none

/-- An integer that 128 bits hold is taken for one, even where it is then refused; a greater one is
not. -/
def WrittenInteger.isWide (n : WrittenInteger) : Bool :=
  if n.negative then n.magnitude ≤ 1 <<< 127 else n.magnitude < 1 <<< 128

/-- What a plain scalar stands for. -/
def Datum.ofPlain? (text : String) : Option Datum :=
  let chars := text.toList
  if text = "" || isNull text then some .null
  else
    match readBool? text, (Yaml.readInteger? chars).filter WrittenInteger.isWide with
    | some b, _ => some (.bool b)
    | none, some n => Datum.ofInteger? n
    | none, none =>
      if hasLeadingZero chars then some (.string text)
      else some (((readDouble? chars).map Datum.float).getD (.string text))

/-- What a scalar with a tag stands for. -/
def Datum.ofTagged? (style : Style) (tag : Tag) (text : String) : Option Datum :=
  if tag = Tag.core "bool" then (readBool? text).map .bool
  else if tag = Tag.core "int" then
    ((Yaml.readInteger? text.toList).filter WrittenInteger.isWide).bind Datum.ofInteger?
  else if tag = Tag.core "float" then (readDouble? text.toList).map .float
  else if tag = Tag.core "null" then if isNull text then some .null else none
  else if tag.isLocal && style = .plain then Datum.ofPlain? text
  else some (.string text)

/-- What a scalar stands for. -/
def Datum.ofScalar? (style : Style) (tag : Option Tag) (text : String) : Option Datum :=
  match tag with
  | some tag => Datum.ofTagged? style tag text
  | none => if style = .plain then Datum.ofPlain? text else some (.string text)

/-! ### Nodes -/

/-- The tag of a node. -/
def Node.tag? : Node → Option Tag
  | scalar _ tag _ | sequence tag _ | mapping tag _ => tag
  | aliased _ => none

/-- What a node stands for, with `depth` levels of collections allowed. -/
def Node.datum (depth : Nat) (node : Node) : Visit Datum := do
  let node ← node.target
  if (node.tag?.bind Tag.name?).isSome then failure
  else
    match node, depth with
    | scalar style tag text, _ => Visit.ofOption (Datum.ofScalar? style tag text)
    | sequence _ items, depth + 1 => .sequence <$> items.mapM (Node.datum depth)
    | mapping _ entries, depth + 1 =>
      .mapping <$> entries.mapM fun (key, value) ↦ do
        return (← Node.datum depth key, ← Node.datum depth value)
    | _, _ => failure

/-! ### JSON -/

mutual

/-- The JSON value of a datum, in which every key is a string. Of equal keys the last counts, and a
double that is not finite is null. -/
def Datum.json? : Datum → Option Json
  | .null => some .null
  | .bool b => some (.bool b)
  | .natural n => (Json.Number.ofInt? n).map .number
  | .negated n => (Json.Number.ofInt? (-n)).map .number
  | .float x => some (((Json.Number.ofFloat? x).map Json.number).getD .null)
  | .string s => some (.string s)
  | .sequence items => (Datum.jsonItems? items).map .array
  | .mapping entries => (Datum.jsonFields? OrderedMap.empty entries).map .object

def Datum.jsonItems? : List Datum → Option (List Json)
  | [] => some []
  | item :: rest => do
    let json ← item.json?
    let items ← Datum.jsonItems? rest
    some (json :: items)

def Datum.jsonFields? (fields : OrderedMap String Json) :
    List (Datum × Datum) → Option (OrderedMap String Json)
  | [] => some fields
  | (.string key, value) :: rest => do
    let json ← value.json?
    Datum.jsonFields? (fields.insert key json) rest
  | _ :: _ => none

end

end FlowGate.Yaml

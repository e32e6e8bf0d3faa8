import FlowGate.Json.Reader
import FlowGate.Json.Text
import FlowGate.Scope.Basic
import FlowGate.Text.Blank

/-!
# Declared attributes

A schema declares attributes with a type and a JSON value. Coercion turns the JSON value into a
value of the declared type, or says why it cannot. Numbers inside an object keep their JSON text
as tokens, and arrays have no counterpart among the values. `RunScope.ofSchema?` is the scope that
a run starts with.
-/

set_option autoImplicit false

namespace FlowGate

/-- The types that an attribute can be declared with; `any` takes the type of its value. -/
inductive AttributeType where
  | string
  | integer
  | number
  | boolean
  | object
  | any
  deriving DecidableEq

namespace AttributeType

def name : AttributeType → String
  | string => "string"
  | integer => "integer"
  | number => "number"
  | boolean => "boolean"
  | object => "object"
  | any => "any"

def all : List AttributeType :=
  [string, integer, number, boolean, object, any]

/-- The type of this name. -/
def ofName? (text : String) : Option AttributeType :=
  all.find? fun type ↦ type.name == text

end AttributeType

/-- Why a declared value is refused. -/
inductive CoercionError where
  | mismatch (name : String) (expected : AttributeType) (value : String)
  | unsupportedArray (name : String)
  deriving DecidableEq

def CoercionError.message : CoercionError → String
  | mismatch name expected value =>
    "attribute '" ++ name ++ "': cannot coerce " ++ value ++ " to " ++ expected.name
  | unsupportedArray name => "attribute '" ++ name ++ "': arrays are not supported"

open OrderedMap

mutual

/-- The value of a part of an object, if no array is in it. -/
def Value.ofNested? : Json → Option Value
  | .null => some .undefined
  | .bool b => some (.bool b)
  | .number n => some (.token n.text)
  | .string s => some (.string s)
  | .array _ => none
  | .object fields => (Value.ofFields? fields).map Value.mapping

def Value.ofFields? {low : Option String} :
    Entries String Json low → Option (Entries String Value low)
  | .nil => some .nil
  | .cons key above json rest =>
    match Value.ofNested? json, Value.ofFields? rest with
    | some value, some values => some (.cons key above value values)
    | _, _ => none

end

/-- The mapping of an object. -/
def coerceObject (name : String) (fields : OrderedMap String Json) : Except CoercionError Value :=
  match Value.ofFields? fields with
  | some values => .ok (.mapping values)
  | none => .error (.unsupportedArray name)

/-- The value of the declared type that a JSON value stands for. Null is undefined in every type. -/
def AttributeType.coerce (type : AttributeType) (name : String) (json : Json) :
    Except CoercionError Value :=
  let orMismatch (value : Option Value) : Except CoercionError Value :=
    match value with
    | some value => .ok value
    | none => .error (.mismatch name type json.compact)
  match type, json with
  | _, .null => .ok .undefined
  | _, .array _ => .error (.unsupportedArray name)
  | string, .string s => .ok (.string s)
  | string, .number n => .ok (.string n.text)
  | string, .bool b => .ok (.string (if b then "true" else "false"))
  | integer, .number n => orMismatch (n.toInt64?.map Value.int)
  | integer, .string s => orMismatch ((readInteger? (Text.trim s.toList)).map Value.int)
  | number, .number n => .ok (.float n.toFloat)
  | number, .string s => orMismatch ((readFloat? (Text.trim s.toList)).map Value.float)
  | boolean, .bool b => .ok (.bool b)
  | boolean, .string s =>
    let word := String.ofList (Text.trim s.toList)
    orMismatch (if word = "true" then some (.bool true)
      else if word = "false" then some (.bool false) else none)
  | object, .object fields => coerceObject name fields
  | object, .string s =>
    match Json.read? s with
    | some (.object fields) => coerceObject name fields
    | _ => orMismatch none
  | any, .bool b => .ok (.bool b)
  | any, .number n =>
    match n.toInt64? with
    | some i => .ok (.int i)
    | none => .ok (.float n.toFloat)
  | any, .string s => .ok (.string s)
  | any, .object fields => coerceObject name fields
  | _, _ => orMismatch none

/-- A declared attribute: its type and its value, if it has one. -/
structure Declaration where
  type : AttributeType
  value : Option Json

/-- The attributes that a run starts with. -/
abbrev Schema : Type :=
  OrderedMap String Declaration

/-- The value that an attribute starts with. -/
def Declaration.start (declaration : Declaration) (name : String) : Except CoercionError Value :=
  match declaration.value with
  | some json => declaration.type.coerce name json
  | none => .ok .undefined

/-- The starting values of declared attributes, refused at the first name whose value is. -/
def startingValues {low : Option String} :
    Entries String Declaration low → Except CoercionError (Entries String Value low)
  | .nil => .ok .nil
  | .cons name above declaration rest => do
    let value ← declaration.start name
    let values ← startingValues rest
    .ok (.cons name above value values)

/-- The scope that holds the declared attributes of a schema. -/
def RunScope.ofSchema? (schema : Schema) : Except CoercionError RunScope :=
  (startingValues schema).map fun values ↦ ⟨values, []⟩

end FlowGate

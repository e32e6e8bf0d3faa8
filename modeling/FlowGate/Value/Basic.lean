import FlowGate.OrderedMap

/-!
# Values

The dynamic values that attributes hold and expressions produce. A `token` is a decimal literal
still kept as text: a number nested in a declared object has no type before something reads it.
`undefined` stands for an attribute or key without a value.
-/

set_option autoImplicit false

namespace FlowGate

inductive Value where
  | bool (b : Bool)
  | int (n : Int64)
  | float (x : Float)
  | string (s : String)
  | token (text : String)
  | mapping (entries : OrderedMap.Entries String Value none)
  | undefined

/-- The kinds of values, as messages name them. -/
inductive Kind where
  | boolean
  | integer
  | float
  | string
  | token
  | mapping
  | undefined
  deriving DecidableEq

def Kind.name : Kind → String
  | boolean => "boolean"
  | integer => "integer"
  | float => "float"
  | string => "string"
  | token => "literal token"
  | mapping => "mapping"
  | undefined => "undefined"

namespace Value

instance : Inhabited Value :=
  ⟨undefined⟩

def kind : Value → Kind
  | bool _ => .boolean
  | int _ => .integer
  | float _ => .float
  | string _ => .string
  | token _ => .token
  | mapping _ => .mapping
  | undefined => .undefined

def asBool? : Value → Option Bool
  | bool b => some b
  | _ => none

end Value

end FlowGate

import FlowGate.Json.Numeral
import FlowGate.Value.Basic

/-!
# Values as JSON

A token that reads as a JSON number becomes that number and any other a string. What JSON cannot
hold, undefined values and doubles that are not finite, becomes null.
-/

set_option autoImplicit false

namespace FlowGate.Value

open OrderedMap

/-- The JSON form of a token. -/
def tokenJson (text : String) : Json :=
  match Json.Number.read? text with
  | some n => .number n
  | none => .string text

mutual

/-- The JSON form of a value. -/
def toJson : Value → Json
  | bool b => .bool b
  | int n => .number (.ofInt64 n)
  | float x =>
    match Json.Number.ofFloat? x with
    | some n => .number n
    | none => .null
  | string s => .string s
  | token text => tokenJson text
  | mapping entries => .object (toJsonEntries entries)
  | undefined => .null

def toJsonEntries {low : Option String} : Entries String Value low → Entries String Json low
  | .nil => .nil
  | .cons key above value rest => .cons key above value.toJson (toJsonEntries rest)

end

end FlowGate.Value

import FlowGate.Number.Decimal
import FlowGate.Value.Basic

/-!
# Reading tokens

A token becomes a number when something dereferences it: a double if its text has a point, else a
64-bit integer. A token that is no such number stays a token.
-/

set_option autoImplicit false

namespace FlowGate.Value

/-- The number that the text of a token stands for, or the token itself. -/
def ofToken (text : String) : Value :=
  if '.' ∈ text.toList then
    ((readFloat? text.toList).map float).getD (token text)
  else
    ((readInteger? text.toList).map int).getD (token text)

/-- Reads a token as a number and leaves any other value as it is. -/
def normalize : Value → Value
  | token text => ofToken text
  | value => value

end FlowGate.Value

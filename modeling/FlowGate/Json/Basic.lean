import FlowGate.Number.Integer
import FlowGate.OrderedMap

/-!
# JSON

JSON values with ordered objects. A number is an integer that fits 64 bits, signed or unsigned, or a
finite double.
-/

set_option autoImplicit false

namespace FlowGate

/-- A number of JSON. -/
inductive Json.Number where
  | integer (n : Int) (inRange : Integer.least ≤ n ∧ n < UInt64.size)
  | double (x : Float) (finite : x.isFinite)

inductive Json where
  | null
  | bool (b : Bool)
  | number (n : Json.Number)
  | string (s : String)
  | array (items : List Json)
  | object (fields : OrderedMap.Entries String Json none)

namespace Json.Number

/-- A double as a number, if it is finite. -/
def ofFloat? (x : Float) : Option Number :=
  if finite : x.isFinite then some (double x finite) else none

/-- An integer as a number, if it is in range. -/
def ofInt? (n : Int) : Option Number :=
  if inRange : Integer.least ≤ n ∧ n < UInt64.size then some (integer n inRange) else none

/-- Every 64-bit integer is a number. -/
def ofInt64 (n : Int64) : Number :=
  integer n.toInt ⟨Int64.minValue_le_toInt n, by
    have hsize : (UInt64.size : Int) = 18446744073709551616 := rfl
    have hlt := Int64.toInt_lt n
    omega⟩

/-- The 64-bit signed integer that a number is. No double counts as one. -/
def toInt64? : Number → Option Int64
  | integer n _ => Integer.ofInt? n
  | double .. => none

/-- The double nearest to a number. -/
def toFloat : Number → Float
  | integer n _ => Float.ofInt n
  | double x _ => x

end Json.Number

end FlowGate

import FlowGate.Number.Decimal

/-!
# Literals of YAML

How null, booleans and numbers are written in scalars. Integers are decimal without needless zeros,
or hexadecimal, octal or binary after `0x`, `0o` or `0b`; doubles are finite decimals, or infinity
or NaN after a point.
-/

set_option autoImplicit false

namespace FlowGate.Yaml

def isNull (text : String) : Bool :=
  text = "null" || text = "Null" || text = "NULL" || text = "~"

def readBool? (text : String) : Option Bool :=
  if text = "true" || text = "True" || text = "TRUE" then some true
  else if text = "false" || text = "False" || text = "FALSE" then some false
  else none

/-- The number that digits of a base stand for. -/
def digits? (base : Nat) (digits : List Char) : Option Nat :=
  if digits = [] then none
  else
    digits.foldlM (fun n c ↦ do
      let d ← hexDigit? c
      if d < base then some (base * n + d) else none) 0

/-- Whether decimal digits after an optional sign start with a needless zero. -/
def hasLeadingZero (text : List Char) : Bool :=
  let digits := (splitSign text).2
  1 < digits.length && digits.head? == some '0' && digits.all Char.isDigit

/-- The base that an integer is written in, and its digits. -/
def baseDigits : List Char → Nat × List Char
  | '0' :: 'x' :: digits => (16, digits)
  | '0' :: 'o' :: digits => (8, digits)
  | '0' :: 'b' :: digits => (2, digits)
  | digits => (10, digits)

/-- An integer as it is written: whether it has a minus, which zero may have too, and what follows.
-/
structure WrittenInteger where
  negative : Bool
  magnitude : Nat
  deriving DecidableEq

/-- An integer written in a scalar. -/
def readInteger? (text : List Char) : Option WrittenInteger :=
  if hasLeadingZero text then none
  else
    let (negative, unsigned) := splitSign text
    let (base, digits) := baseDigits unsigned
    (digits? base digits).map fun magnitude ↦ ⟨negative, magnitude⟩

/-- A double written in a scalar: a finite decimal, or a name of infinity or of NaN after a point.
-/
def readDouble? (text : List Char) : Option Float :=
  let (negative, unsigned) := splitSign text
  let name := String.ofList unsigned
  if name = ".inf" || name = ".Inf" || name = ".INF" then
    some (if negative then -(1.0 / 0.0) else 1.0 / 0.0)
  else if (name = ".nan" || name = ".NaN" || name = ".NAN") && unsigned.length = text.length then
    some (0.0 / 0.0)
  else
    (FlowGate.readFloat? text).filter Float.isFinite

end FlowGate.Yaml

import FlowGate.Number.Digits
import FlowGate.Number.Integer

/-!
# Decimal numerals

Reading numbers from decimal text. An integer is an optional sign and digits; a double is an
optional sign and either digits with an optional point and exponent, or a name of infinity or of
NaN in any case of letters. A decimal becomes the nearest double; magnitudes beyond the doubles
become infinity.
-/

set_option autoImplicit false

namespace FlowGate

/-- An optional sign: whether it is a minus, and the text after it. -/
def splitSign : List Char → Bool × List Char
  | '-' :: rest => (true, rest)
  | '+' :: rest => (false, rest)
  | rest => (false, rest)

/-- The 64-bit integer written as an optional sign and at least one digit. -/
def readInteger? (text : List Char) : Option Int64 :=
  let (negative, digits) := splitSign text
  if digits ≠ [] ∧ digits.all Char.isDigit then
    let n : Int := natOfDigits digits
    Integer.ofInt? (if negative then -n else n)
  else
    none

/-- The number `± significand * 10 ^ exponent`. -/
structure Decimal where
  negative : Bool
  significand : Nat
  exponent : Int
  deriving DecidableEq

namespace Decimal

/-- The decimal with these digits before and after the point. -/
def ofDigits (whole fraction : List Char) : Decimal :=
  ⟨false, natOfDigits (whole ++ fraction), -(fraction.length : Int)⟩

/-- The nearest double. A decimal far outside the range of the doubles is settled by its
magnitude alone, without computing the power of ten. -/
def toFloat (d : Decimal) : Float :=
  let magnitude : Float :=
    if d.significand = 0 then 0.0
    else
      let leading := (d.significand.log2 * 30103 / 100000 : Nat) + d.exponent
      if leading > 310 then 1.0 / 0.0
      else if leading < -330 then 0.0
      else
        match d.exponent with
        | .ofNat e => Float.ofScientific d.significand false e
        | .negSucc e => Float.ofScientific d.significand true (e + 1)
  if d.negative then -magnitude else magnitude

/-- Reads digits with an optional point and exponent, and nothing else. There is a digit before
or after the point, and one in the exponent. -/
def readUnsigned? (text : List Char) : Option Decimal :=
  let whole := text.takeWhile Char.isDigit
  let afterWhole := text.dropWhile Char.isDigit
  let (fraction, afterFraction) : List Char × List Char :=
    match afterWhole with
    | '.' :: rest => (rest.takeWhile Char.isDigit, rest.dropWhile Char.isDigit)
    | rest => ([], rest)
  if whole = [] ∧ fraction = [] then none
  else
    let mantissa := ofDigits whole fraction
    match afterFraction with
    | [] => some mantissa
    | mark :: rest =>
      let (negative, digits) := splitSign rest
      if (mark = 'e' ∨ mark = 'E') ∧ digits ≠ [] ∧ digits.all Char.isDigit then
        let power : Int := natOfDigits digits
        some { mantissa with
          exponent := mantissa.exponent + if negative then -power else power }
      else
        none

end Decimal

/-- The double written as a decimal, or named as infinity or NaN. -/
def readFloat? (text : List Char) : Option Float :=
  let (negative, magnitude) := splitSign text
  let name := String.ofList (magnitude.map Char.toLower)
  if name = "inf" ∨ name = "infinity" then
    some (if negative then -(1.0 / 0.0) else 1.0 / 0.0)
  else if name = "nan" then
    some (0.0 / 0.0)
  else
    (Decimal.readUnsigned? magnitude).map fun d ↦ { d with negative }.toFloat

end FlowGate

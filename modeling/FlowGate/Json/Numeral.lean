import FlowGate.Json.Basic
import FlowGate.Number.Decimal

/-!
# Numerals of JSON

A numeral is an optional minus, a whole part without leading zeros, and an optional fraction and
exponent. Without the last two it is an integer, if 64 bits hold it; minus zero and anything else
is a double. A double is computed quickly rather than exactly: the leading digits that fit 64
bits, as a double, are multiplied or divided by one power of ten. A result beyond the doubles is
refused.
-/

set_option autoImplicit false

namespace FlowGate.Json

/-- The parts of a numeral: sign, digits before and after the point, and exponent. -/
structure Numeral where
  negative : Bool
  whole : List Char
  fraction : List Char
  exponent : Option Int

namespace Numeral

/-- Reads a numeral at the start of a text, and gives the text after it. -/
def scan? (cs : List Char) : Option (Numeral × List Char) :=
  let (negative, unsigned) : Bool × List Char :=
    match cs with
    | '-' :: rest => (true, rest)
    | rest => (false, rest)
  let whole := unsigned.takeWhile Char.isDigit
  let afterWhole := unsigned.dropWhile Char.isDigit
  let (fraction, afterFraction, pointed) : List Char × List Char × Bool :=
    match afterWhole with
    | '.' :: rest => (rest.takeWhile Char.isDigit, rest.dropWhile Char.isDigit, true)
    | rest => ([], rest, false)
  if whole = [] ∨ (whole.head? = some '0' ∧ 1 < whole.length) ∨ (pointed ∧ fraction = []) then none
  else
    match afterFraction with
    | mark :: rest =>
      if mark = 'e' ∨ mark = 'E' then
        let (down, unsignedPower) := splitSign rest
        let digits := unsignedPower.takeWhile Char.isDigit
        if digits = [] then none
        else
          let power : Int := natOfDigits digits
          some (⟨negative, whole, fraction, some (if down then -power else power)⟩,
            unsignedPower.dropWhile Char.isDigit)
      else
        some (⟨negative, whole, fraction, none⟩, mark :: rest)
    | [] => some (⟨negative, whole, fraction, none⟩, [])

/-- Leading digits as far as they fit 64 bits, and how many digits of the whole part were dropped.
-/
def leadingWhole (digits : List Char) : Nat × Nat :=
  digits.foldl (fun (n, dropped) c ↦
    let next := natOfDigits [c] + 10 * n
    if dropped = 0 ∧ next < UInt64.size then (next, 0) else (n, dropped + 1)) (0, 0)

/-- Goes on with the digits of the fraction, and counts those that still fit. -/
def leadingFraction (n : Nat) (taken : Nat) : List Char → Nat × Nat
  | [] => (n, taken)
  | c :: cs =>
    let next := natOfDigits [c] + 10 * n
    if next < UInt64.size then leadingFraction next (taken + 1) cs else (n, taken)

/-- The double nearest to a power of ten. -/
def power (e : Nat) : Float :=
  Float.ofScientific 1 false e

/-- A double times a power of ten, if that is finite. The powers of ten of doubles end at
`10 ^ 308`; smaller numbers are divided by that one first. -/
def scale? (x : Float) (e : Int) : Option Float :=
  if x == 0.0 then some x
  else if 308 < e then none
  else if 0 ≤ e then
    let scaled := x * power e.toNat
    if scaled.isFinite then some scaled else none
  else if -308 ≤ e then some (x / power (-e).toNat)
  else if -616 ≤ e then some (x / power 308 / power (-e - 308).toNat)
  else some 0.0

/-- The double that a numeral stands for, if it is finite. -/
def toFloat? (numeral : Numeral) : Option Float :=
  let (n, dropped) := leadingWhole numeral.whole
  let (significand, taken) := leadingFraction n 0 numeral.fraction
  let exponent := (dropped : Int) - taken + numeral.exponent.getD 0
  (scale? (Float.ofNat significand) exponent).map fun x ↦ if numeral.negative then -x else x

/-- The number that a numeral stands for. -/
def toNumber? (numeral : Numeral) : Option Number :=
  let n : Int := natOfDigits numeral.whole
  let exact : Option Number :=
    if numeral.fraction ≠ [] ∨ numeral.exponent.isSome then none
    else if numeral.negative then
      if n = 0 then none else Number.ofInt? (-n)
    else
      Number.ofInt? n
  exact.or (numeral.toFloat?.bind Number.ofFloat?)

end Numeral

/-- Whether a character is a blank of JSON. -/
def isSpace (c : Char) : Bool :=
  c = ' ' || c = '\t' || c = '\n' || c = '\r'

/-- The number written in a text, with blanks around it. -/
def Number.read? (text : String) : Option Number :=
  match Numeral.scan? (text.toList.dropWhile isSpace) with
  | some (numeral, rest) => if rest.all isSpace then numeral.toNumber? else none
  | none => none

end FlowGate.Json

import FlowGate.Number.Shortest

/-!
# Written doubles

The shortest digits of a double, written with or without an exponent. What differs between the
places where doubles are written is a `Layout`; `render` is the one printer.
-/

set_option autoImplicit false

namespace FlowGate

/-- How doubles are written in one place: up to which exponents of the leading digit positional
notation goes, whether a whole number keeps a `.0`, whether a positive exponent has a sign, and
which of two equally near decimals is taken. -/
structure Layout where
  tie : Shortest.Tie
  positionalFrom : Option Int
  positionalTo : Option Int
  keepsPoint : Bool
  signsExponent : Bool

namespace Layout

/-- Digits with a decimal point before the last `-exponent` of them, or zeros after them. -/
def positional (keepsPoint : Bool) (digits : List Char) (exponent : Int) : List Char :=
  let places := (-exponent).toNat
  if 0 ≤ exponent then
    digits ++ List.replicate exponent.toNat '0' ++ (if keepsPoint then ['.', '0'] else [])
  else if places < digits.length then
    digits.take (digits.length - places) ++ '.' :: digits.drop (digits.length - places)
  else
    '0' :: '.' :: List.replicate (places - digits.length) '0' ++ digits

/-- One digit, the others after a point, and the exponent of the first. -/
def scientific (signsExponent : Bool) (digits : List Char) (leading : Int) : List Char :=
  let fraction := digits.drop 1
  let mark := if signsExponent ∧ 0 ≤ leading then ['e', '+'] else ['e']
  digits.take 1 ++ (if fraction = [] then [] else '.' :: fraction) ++ mark ++
    (toString leading).toList

/-- A finite magnitude `m * 2 ^ q`. -/
def magnitude (layout : Layout) (m : Nat) (q : Int) : List Char :=
  if m = 0 then
    positional layout.keepsPoint ['0'] 0
  else
    let shortest := Shortest.ofParts layout.tie m q
    let digits := Nat.toDigits 10 shortest.digits
    let leading := shortest.exponent + (digits.length : Int) - 1
    if layout.positionalFrom.all (· ≤ leading) && layout.positionalTo.all (leading ≤ ·) then
      positional layout.keepsPoint digits shortest.exponent
    else
      scientific layout.signsExponent digits leading

/-- The text of a double. Negative zero keeps its sign. -/
def render (layout : Layout) (x : Float) : String :=
  match Binary64.form x with
  | .nan => "NaN"
  | .infinite negative => if negative then "-inf" else "inf"
  | .finite negative m q =>
    String.ofList ((if negative then ['-'] else []) ++ layout.magnitude m q)

/-- Digits without an exponent, as short as can be. -/
def plain : Layout :=
  ⟨.up, none, none, false, false⟩

/-- Always recognisable as a double: a point or an exponent, the latter from `1e16` on and below
`1e-4`. -/
def marked : Layout :=
  ⟨.up, some (-4), some 15, true, false⟩

/-- Doubles in JSON text: an exponent from `1e+16` on and below `1e-5`. -/
def json : Layout :=
  ⟨.even, some (-5), some 15, true, true⟩

end Layout

end FlowGate

/-!
# Doubles as exact numbers

A finite double is `± significand * 2 ^ exponent` with natural `significand` (`Form`, `form`).
Exact operations on doubles are computed on these parts. `remainder` is the remainder of the
division truncated toward zero, which is always a double itself, and `ofInt64` the double nearest to
an integer.
-/

set_option autoImplicit false

namespace FlowGate.Binary64

/-- What a double stands for. A finite one is `significand * 2 ^ exponent`, with a sign. -/
inductive Form where
  | nan
  | infinite (negative : Bool)
  | finite (negative : Bool) (significand : Nat) (exponent : Int)
  deriving DecidableEq

/-- The least exponent of a finite double. -/
def leastExponent : Int := -1074

/-- The least significand of a normal double, `2 ^ 52`. -/
def hiddenBit : Nat := 1 <<< 52

/-- Reads sign, exponent and significand off the bits. -/
def form (x : Float) : Form :=
  let bits := x.toBits.toNat
  let negative := bits >>> 63 == 1
  let biased := bits / hiddenBit % 2048
  let fraction := bits % hiddenBit
  if biased = 2047 then
    if fraction = 0 then .infinite negative else .nan
  else if biased = 0 then
    .finite negative fraction leastExponent
  else
    .finite negative (hiddenBit + fraction) (leastExponent + (biased - 1 : Nat))

/-- The double `± significand * 2 ^ exponent`, for a number that is a double. -/
def ofParts (negative : Bool) (significand : Nat) (exponent : Int) : Float :=
  let sign := if negative then 1 <<< 63 else 0
  let shift := 52 - (significand.log2 : Int)
  let biased := exponent - shift - leastExponent + 1
  let magnitude :=
    if significand = 0 then 0
    else if 1 ≤ biased then
      biased.toNat * hiddenBit + (significand <<< shift.toNat - hiddenBit)
    else
      significand <<< (exponent - leastExponent).toNat
  Float.ofBits (UInt64.ofNat (sign + magnitude))

/-- The remainder of `x` by `y` with the sign of `x`. There is none, hence NaN, for an infinite
`x` and for a zero `y`; an infinite `y` leaves `x` as it is. -/
def remainder (x y : Float) : Float :=
  match form x, form y with
  | .finite negative a p, .finite _ b q =>
    if b = 0 then 0.0 / 0.0
    else
      let unit := min p q
      let left := a <<< (p - unit).toNat
      let right := b <<< (q - unit).toNat
      ofParts negative (left % right) unit
  | .finite .., .infinite _ => x
  | _, _ => 0.0 / 0.0

/-- The double nearest to an integer, a tie going to the even significand. -/
def ofInt64 (n : Int64) : Float :=
  Float.ofInt n.toInt

end FlowGate.Binary64

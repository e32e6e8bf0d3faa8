import FlowGate.Number.Binary64

/-!
# Shortest decimals

The shortest decimal of a double is a number with the fewest digits among those that are nearer to
this double than to any other. The reals that round to `m * 2 ^ q` form an interval around it, whose
ends belong to it if `m` is even. On the grid of the multiples of a power of ten only the two
neighbours of the double need to be tried (`candidate?`): the coarsest grid with a hit gives the
fewest digits, and of two hits the nearer is taken.
-/

set_option autoImplicit false

namespace FlowGate.Shortest

/-- Which of two equally near neighbours is taken. -/
inductive Tie where
  | up
  | even
  deriving DecidableEq

/-- The digits and the power of ten of a decimal. -/
structure Digits where
  digits : Nat
  exponent : Int
  deriving DecidableEq

/-- The hit among the two multiples of `10 ^ k` around `m * 2 ^ q`, if there is one. Quarters of
the last place of the double, `2 ^ (q - 2)`, are the unit in which the interval is measured. -/
def candidate? (tie : Tie) (m : Nat) (q k : Int) : Option Digits :=
  let unit := Nat.pow 10 (-k).toNat <<< (q - 2).toNat
  let grid := Nat.pow 10 k.toNat <<< (2 - q).toNat
  let exact := 4 * m * unit
  let denserBelow := m == Binary64.hiddenBit && q != Binary64.leastExponent
  let low := (if denserBelow then 4 * m - 1 else 4 * m - 2) * unit
  let high := (4 * m + 2) * unit
  let inside (c : Nat) : Bool :=
    if m % 2 = 0 then low ≤ c * grid && c * grid ≤ high else low < c * grid && c * grid < high
  let below := exact / grid
  let twice := 2 * (exact % grid)
  let nearer :=
    if twice < grid then below
    else if grid < twice then below + 1
    else match tie with
      | .up => below + 1
      | .even => if below % 2 = 0 then below else below + 1
  if inside below && inside (below + 1) then some ⟨nearer, k⟩
  else if inside below then some ⟨below, k⟩
  else if inside (below + 1) then some ⟨below + 1, k⟩
  else none

/-- The first hit on the grids of `10 ^ k`, `10 ^ (k - 1)` and so on. -/
def firstHit (tie : Tie) (m : Nat) (q : Int) : Nat → Int → Digits
  | 0, k => ⟨m, k⟩
  | grids + 1, k =>
    match candidate? tie m q k with
    | some hit => hit
    | none => firstHit tie m q grids (k - 1)

/-- The exponent of the leading digit of `m * 2 ^ q`, which no double makes less than `-324`. -/
def leadingExponent (m : Nat) (q : Int) : Int :=
  let scaled := (m * Nat.pow 10 330) <<< q.toNat >>> (-q).toNat
  ((Nat.toDigits 10 scaled).length : Int) - 331

/-- The shortest decimal of `m * 2 ^ q`, for positive `m`. Seventeen digits always suffice. -/
def ofParts (tie : Tie) (m : Nat) (q : Int) : Digits :=
  firstHit tie m q 20 (leadingExponent m q + 1)

end FlowGate.Shortest

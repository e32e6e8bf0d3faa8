/-!
# Integers of 64 bits

Attribute values count in 64-bit signed integers. Arithmetic on them is exact or refused: each
operation computes on `Int` and hands the result back only if it is in range (`ofInt?`). Division
truncates toward zero, and the remainder takes the sign of the dividend; a remainder is refused
where the quotient is.
-/

set_option autoImplicit false

namespace FlowGate.Integer

/-- The least 64-bit integer. -/
def least : Int := Int64.minValue.toInt

/-- The greatest 64-bit integer. -/
def greatest : Int := Int64.maxValue.toInt

/-- The 64-bit integer that equals `n`, if `n` is in range. -/
def ofInt? (n : Int) : Option Int64 :=
  if least ≤ n ∧ n ≤ greatest then some (Int64.ofInt n) else none

def add? (a b : Int64) : Option Int64 :=
  ofInt? (a.toInt + b.toInt)

def sub? (a b : Int64) : Option Int64 :=
  ofInt? (a.toInt - b.toInt)

def mul? (a b : Int64) : Option Int64 :=
  ofInt? (a.toInt * b.toInt)

/-- The quotient, truncated toward zero. The divisor is not zero. -/
def quot? (a b : Int64) : Option Int64 :=
  ofInt? (a.toInt.tdiv b.toInt)

/-- The remainder of `quot?`, refused where the quotient is out of range. -/
def rem? (a b : Int64) : Option Int64 :=
  (quot? a b).bind fun _ ↦ ofInt? (a.toInt.tmod b.toInt)

def neg? (a : Int64) : Option Int64 :=
  ofInt? (-a.toInt)

theorem toInt_of_ofInt?_eq_some {n : Int} {a : Int64} (h : ofInt? n = some a) : a.toInt = n := by
  unfold ofInt? at h
  split at h
  · rename_i hrange
    cases h
    simp only [least, greatest, Int64.toInt_minValue, Int64.toInt_maxValue] at hrange
    exact Int64.toInt_ofInt_of_le (by omega) (by omega)
  · cases h

theorem ofInt?_toInt (a : Int64) : ofInt? a.toInt = some a := by
  have hlow : least ≤ a.toInt := Int64.minValue_le_toInt a
  have hhigh : a.toInt ≤ greatest := Int64.toInt_le a
  rw [ofInt?, if_pos ⟨hlow, hhigh⟩, Int64.ofInt_toInt]

end FlowGate.Integer

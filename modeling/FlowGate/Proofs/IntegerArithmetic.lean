import FlowGate.Expr.Eval

/-!
# Integer arithmetic is exact or refused

An operation on 64-bit integers gives the integer that it has in mathematics, or it is an overflow
because 64 bits do not hold that integer (`Exact`). Quotients are out of range for one pair of
integers only (`inRange_tdiv_iff`), and the remainder is refused for the same pair, though it would
be zero (`rem?_eq_none_iff`). What is said of expressions (`eval_integers`) follows from what the
operators do to two integers.
-/

set_option autoImplicit false

namespace FlowGate

/-! ### Integers of 64 bits -/

namespace Integer

/-- 64 bits hold the integer. -/
def InRange (n : Int) : Prop :=
  -9223372036854775808 ≤ n ∧ n ≤ 9223372036854775807

theorem inRange_toInt (a : Int64) : InRange a.toInt :=
  ⟨Int64.minValue_le_toInt a, Int64.toInt_le a⟩

theorem ofInt?_eq_none_iff {n : Int} : ofInt? n = none ↔ ¬InRange n := by
  have hrange : InRange n ↔ least ≤ n ∧ n ≤ greatest := Iff.rfl
  rw [hrange, ofInt?]
  split <;> simp [*]

theorem exists_of_inRange {n : Int} (h : InRange n) : ∃ a, ofInt? n = some a ∧ a.toInt = n := by
  cases ha : ofInt? n with
  | none => exact absurd h (ofInt?_eq_none_iff.mp ha)
  | some a => exact ⟨a, rfl, toInt_of_ofInt?_eq_some ha⟩

/-! ### Quotients and remainders -/

theorem inRange_tdiv_iff {a b : Int} (ha : InRange a) :
    InRange (a.tdiv b) ↔ ¬(a = -9223372036854775808 ∧ b = -1) := by
  unfold InRange at *
  constructor
  · rintro hquot ⟨rfl, rfl⟩
    exact absurd hquot (by decide)
  · intro hne
    have hquot : (a.tdiv b).natAbs = a.natAbs / b.natAbs := Int.natAbs_tdiv a b
    by_cases hone : b.natAbs = 1
    · obtain rfl | rfl := Int.natAbs_eq_natAbs_iff.mp (hone.trans Int.natAbs_one.symm)
      · rwa [Int.tdiv_one]
      · rw [Int.tdiv_neg, Int.tdiv_one]
        omega
    · -- any other divisor makes the magnitude at most half of what it was
      have hhalf : a.natAbs / b.natAbs ≤ a.natAbs / 2 := by
        rcases Nat.eq_zero_or_pos b.natAbs with hzero | hpos
        · rw [hzero, Nat.div_zero]
          exact Nat.zero_le _
        · exact Nat.div_le_div_left (by omega) (by decide)
      omega

/-- A remainder is smaller in magnitude than the divisor. -/
theorem natAbs_tmod_lt (a : Int) {b : Int} (hb : b ≠ 0) : (a.tmod b).natAbs < b.natAbs := by
  rw [Int.natAbs_tmod]
  exact Nat.mod_lt _ (Int.natAbs_pos.mpr hb)

theorem inRange_tmod (a : Int) {b : Int} (hb : InRange b) (hne : b ≠ 0) : InRange (a.tmod b) := by
  have hlt := natAbs_tmod_lt a hne
  unfold InRange at *
  omega

/-- A remainder is zero or has the sign of the dividend. -/
theorem tmod_eq_zero_or_sign_eq (a b : Int) : a.tmod b = 0 ∨ (a.tmod b).sign = a.sign := by
  have hsign := Int.sign_tmod a b
  split at hsign
  · exact .inl (Int.sign_eq_zero_iff_zero.mp hsign)
  · exact .inr hsign

theorem toInt_ne_zero {b : Int64} (hb : b ≠ 0) : b.toInt ≠ 0 :=
  mt (Int64.toInt_inj (y := 0)).mp hb

/-- The least integer divided by minus one. -/
theorem leastByMinusOne_iff {a b : Int64} :
    a = Int64.minValue ∧ b = -1 ↔ a.toInt = -9223372036854775808 ∧ b.toInt = -1 :=
  and_congr (Int64.toInt_inj (y := Int64.minValue)).symm (Int64.toInt_inj (y := -1)).symm

theorem quot?_eq_none_iff {a b : Int64} : quot? a b = none ↔ a = Int64.minValue ∧ b = -1 := by
  rw [quot?, ofInt?_eq_none_iff, inRange_tdiv_iff (inRange_toInt a), Classical.not_not,
    leastByMinusOne_iff]

/-- A remainder is refused where the quotient is. -/
theorem rem?_eq_none_iff {a b : Int64} (hb : b ≠ 0) :
    rem? a b = none ↔ a = Int64.minValue ∧ b = -1 := by
  obtain ⟨r, hr, -⟩ := exists_of_inRange
    (inRange_tmod a.toInt (inRange_toInt b) (toInt_ne_zero hb))
  rw [← quot?_eq_none_iff, rem?, hr]
  cases quot? a b <;> simp

/-- Quotient and remainder of two integers, where neither is refused. -/
theorem exists_quot?_rem? {a b : Int64} (hb : b ≠ 0) (hne : ¬(a = Int64.minValue ∧ b = -1)) :
    ∃ q r, quot? a b = some q ∧ rem? a b = some r ∧
      a.toInt = q.toInt * b.toInt + r.toInt ∧ r.toInt.natAbs < b.toInt.natAbs ∧
        (r.toInt = 0 ∨ r.toInt.sign = a.toInt.sign) := by
  have hzero := toInt_ne_zero hb
  obtain ⟨q, hq, hquot⟩ := exists_of_inRange
    ((inRange_tdiv_iff (inRange_toInt a)).mpr (mt leastByMinusOne_iff.mpr hne))
  obtain ⟨r, hr, hrem⟩ := exists_of_inRange (inRange_tmod a.toInt (inRange_toInt b) hzero)
  refine ⟨q, r, hq, ?_, ?_, ?_, ?_⟩
  · rw [rem?, quot?, hq, Option.bind_some, hr]
  · rw [hquot, hrem, Int.tdiv_mul_add_tmod]
  · rw [hrem]
    exact natAbs_tmod_lt a.toInt hzero
  · rw [hrem]
    exact tmod_eq_zero_or_sign_eq a.toInt b.toInt

end Integer

/-! ### Operators -/

open Integer

/-- The result is the integer if 64 bits hold it, and else an overflow. -/
structure Exact (op : Operation) (exact : Int) (result : Except EvalError Value) : Prop where
  ok_iff : (∃ n : Int64, n.toInt = exact ∧ result = .ok (.int n)) ↔ InRange exact
  overflow_iff : result = .error (.overflow op) ↔ ¬InRange exact

theorem exact_of_ofInt? {op : Operation} {exact : Int} {result : Except EvalError Value}
    (h : result = match ofInt? exact with
      | some n => .ok (.int n)
      | none => .error (.overflow op)) : Exact op exact result := by
  subst h
  by_cases hrange : InRange exact
  · obtain ⟨n, hn, hexact⟩ := exists_of_inRange hrange
    rw [hn]
    exact ⟨iff_of_true ⟨n, hexact, rfl⟩ hrange, iff_of_false nofun (Classical.not_not.mpr hrange)⟩
  · rw [ofInt?_eq_none_iff.mpr hrange]
    exact ⟨iff_of_false nofun hrange, iff_of_true rfl hrange⟩

namespace BinaryOp

/-- Division of integers looks at the divisor first. -/
theorem division_int (op : BinaryOp) (onInts : Int64 → Int64 → Option Int64)
    (onFloats : Float → Float → Float) (a b : Int64) :
    op.division onInts onFloats (.int a) (.int b) =
      if b = 0 then .error .divisionByZero
      else match onInts a b with
        | some n => .ok (.int n)
        | none => .error (.overflow (.binary op)) := by
  by_cases hb : b = 0
  · subst hb
    rfl
  · unfold division
    split
    · rename_i hzero
      exact absurd (Value.int.inj hzero) hb
    · rw [if_neg hb]
      rfl

/-- A division of integers fails by the divisor zero, and by the one pair that is out of range. -/
theorem division_error_iff (op : BinaryOp) {onInts : Int64 → Int64 → Option Int64}
    (onFloats : Float → Float → Float) {a b : Int64}
    (h : b ≠ 0 → (onInts a b = none ↔ a = Int64.minValue ∧ b = -1)) :
    (op.division onInts onFloats (.int a) (.int b) = .error .divisionByZero ↔ b = 0) ∧
      (op.division onInts onFloats (.int a) (.int b) = .error (.overflow (.binary op)) ↔
        a = Int64.minValue ∧ b = -1) := by
  rw [division_int]
  by_cases hb : b = 0
  · subst hb
    rw [if_pos rfl]
    exact ⟨iff_of_true rfl rfl, iff_of_false nofun fun hpair ↦ absurd hpair.2 (by decide)⟩
  · rw [if_neg hb, ← h hb]
    cases onInts a b with
    | none => exact ⟨iff_of_false nofun hb, iff_of_true rfl rfl⟩
    | some n => exact ⟨iff_of_false nofun hb, iff_of_false nofun nofun⟩

/-- A division of integers by another integer than zero succeeds where the operation does. -/
theorem division_eq_ok (op : BinaryOp) {onInts : Int64 → Int64 → Option Int64}
    (onFloats : Float → Float → Float) {a b n : Int64} (hb : b ≠ 0) (h : onInts a b = some n) :
    op.division onInts onFloats (.int a) (.int b) = .ok (.int n) := by
  rw [division_int, if_neg hb, h]

end BinaryOp

/-- Arithmetic of integers in expressions. Sums, differences, products and negations are the exact
integer if 64 bits hold it, and else an overflow. Division and remainder fail for the divisor zero,
and overflow only where the least integer is divided by minus one. Otherwise they are the quotient
and the remainder that is smaller than the divisor and has the sign of the dividend, unless it is
zero. -/
theorem eval_integers {env : String → Value} {left right : Expr} {a b : Int64}
    (hleft : left.eval env = .ok (.int a)) (hright : right.eval env = .ok (.int b)) :
    Exact (.binary .add) (a.toInt + b.toInt) ((Expr.binary .add left right).eval env) ∧
      Exact (.binary .sub) (a.toInt - b.toInt) ((Expr.binary .sub left right).eval env) ∧
      Exact (.binary .mul) (a.toInt * b.toInt) ((Expr.binary .mul left right).eval env) ∧
      Exact (.unary .neg) (-a.toInt) ((Expr.unary .neg left).eval env) ∧
      (∀ op ∈ [BinaryOp.div, .rem],
        ((Expr.binary op left right).eval env = .error .divisionByZero ↔ b = 0) ∧
          ((Expr.binary op left right).eval env = .error (.overflow (.binary op)) ↔
            a = Int64.minValue ∧ b = -1)) ∧
      (b ≠ 0 → ¬(a = Int64.minValue ∧ b = -1) → ∃ q r : Int64,
        (Expr.binary .div left right).eval env = .ok (.int q) ∧
          (Expr.binary .rem left right).eval env = .ok (.int r) ∧
          a.toInt = q.toInt * b.toInt + r.toInt ∧ r.toInt.natAbs < b.toInt.natAbs ∧
          (r.toInt = 0 ∨ r.toInt.sign = a.toInt.sign)) := by
  have heval : ∀ op : BinaryOp, op ≠ .and → op ≠ .or →
      (Expr.binary op left right).eval env = op.apply (.int a) (.int b) :=
    fun op hand hor ↦ Expr.eval_binary hand hor hleft hright
  rw [heval .add nofun nofun, heval .sub nofun nofun, heval .mul nofun nofun,
    heval .div nofun nofun, heval .rem nofun nofun, Expr.eval_unary .neg hleft]
  refine ⟨exact_of_ofInt? rfl, exact_of_ofInt? rfl, exact_of_ofInt? rfl, exact_of_ofInt? rfl,
    fun op hop ↦ ?_, fun hb hne ↦ ?_⟩
  · obtain rfl | rfl : op = .div ∨ op = .rem := by simpa using hop
    · rw [heval .div nofun nofun]
      exact BinaryOp.division_error_iff .div _ fun _ ↦ quot?_eq_none_iff
    · rw [heval .rem nofun nofun]
      exact BinaryOp.division_error_iff .rem _ rem?_eq_none_iff
  · obtain ⟨q, r, hq, hr, hdivision⟩ := exists_quot?_rem? hb hne
    exact ⟨q, r, BinaryOp.division_eq_ok .div _ hb hq, BinaryOp.division_eq_ok .rem _ hb hr,
      hdivision⟩

/-- The least integer has no negation and no quotient by minus one, the half of `2 ^ 63`
cannot be doubled, and a negative dividend has a negative remainder. -/
theorem eval_integers_edges :
    let env : String → Value := fun _ ↦ .undefined
    let least : Expr := .literal (.int Int64.minValue)
    let minusOne : Expr := .literal (.int (-1))
    let half : Expr := .literal (.int 4611686018427387904)
    let two : Expr := .literal (.int 2)
    let minusSeven : Expr := .literal (.int (-7))
    (Expr.unary .neg least).eval env = .error (.overflow (.unary .neg)) ∧
      (Expr.binary .div least minusOne).eval env = .error (.overflow (.binary .div)) ∧
      (Expr.binary .rem least minusOne).eval env = .error (.overflow (.binary .rem)) ∧
      (Expr.binary .mul half two).eval env = .error (.overflow (.binary .mul)) ∧
      ∃ q r : Int64, (Expr.binary .div minusSeven two).eval env = .ok (.int q) ∧
        (Expr.binary .rem minusSeven two).eval env = .ok (.int r) ∧
        -7 = q.toInt * 2 + r.toInt ∧ r.toInt.natAbs < 2 ∧ (r.toInt = 0 ∨ r.toInt.sign = -1) := by
  intro env least minusOne half two minusSeven
  have hleast : least.eval env = .ok (.int Int64.minValue) := rfl
  have hminusOne : minusOne.eval env = .ok (.int (-1)) := rfl
  have hhalf : half.eval env = .ok (.int 4611686018427387904) := rfl
  have htwo : two.eval env = .ok (.int 2) := rfl
  have hminusSeven : minusSeven.eval env = .ok (.int (-7)) := rfl
  obtain ⟨-, -, -, hneg, hfails, -⟩ := eval_integers hleast hminusOne
  obtain ⟨-, -, hmul, -⟩ := eval_integers hhalf htwo
  obtain ⟨-, -, -, -, -, hdivision⟩ := eval_integers hminusSeven htwo
  refine ⟨hneg.overflow_iff.mpr ?_, (hfails .div (by simp)).2.mpr ⟨rfl, rfl⟩,
    (hfails .rem (by simp)).2.mpr ⟨rfl, rfl⟩, hmul.overflow_iff.mpr ?_,
    hdivision (by decide) (by decide)⟩
  · rintro ⟨-, hle⟩
    exact absurd hle (by decide)
  · rintro ⟨-, hle⟩
    exact absurd hle (by decide)

end FlowGate

import FlowGate.Expr.Eval
import FlowGate.Proofs.ReferenceRuns
import Mathlib.Data.String.Basic
import Mathlib.Order.RelIso.Basic

/-!
# The order of values

Six operators compare values, four through one comparison and two through equality. A comparison
that has a result has one of three, which are `<`, `==` and `>` (`exists_order`), and `<=` and `>=`
deny the outer two. A comparison of doubles may also have no order, and then none of the four
operators holds. So opposite guards are never both true (`neverBoth_eval`), whatever the operands.

Integers are in the order of numbers and strings in the order of their characters, which is the
order of their bytes: in UTF-8 a later character has later bytes (`utf8EncodeChar_append_lt`).
-/

set_option autoImplicit false

namespace FlowGate

/-! ### Bytes of strings -/

namespace Reference

theorem cons_lt_cons_iff_toNat {a b : UInt8} {front back : List UInt8} :
    a :: front < b :: back ↔ a.toNat < b.toNat ∨ a.toNat = b.toNat ∧ front < back := by
  rw [List.cons_lt_cons_iff, UInt8.lt_iff_toNat_lt, UInt8.toNat_inj]

/-- The bytes of a later character come later, whatever follows. -/
theorem utf8EncodeChar_append_lt {c d : Char} (h : c < d) (front back : List UInt8) :
    String.utf8EncodeChar c ++ front < String.utf8EncodeChar d ++ back := by
  have hlt : c.val.toNat < d.val.toNat := h
  have hbound : d.val.toNat < 1114112 := by
    rcases d.valid with hlow | hhigh
    · exact Nat.lt_trans hlow (by decide)
    · exact hhigh.2
  simp only [String.utf8EncodeChar]
  generalize c.val.toNat = v at hlt
  generalize d.val.toNat = w at hlt hbound
  by_cases hv : v ≤ 65535
  · -- the first byte decides, unless both take up the same number of bytes
    rw [if_pos hv]
    split_ifs
    all_goals
      simp only [List.cons_append, List.nil_append, cons_lt_cons_iff_toNat, UInt8.toNat_ofNat']
      omega
  · have hw : ¬w ≤ 65535 := by omega
    rw [if_neg (by omega), if_neg (by omega), if_neg hv, if_neg (by omega), if_neg (by omega),
      if_neg hw]
    simp only [List.cons_append, List.nil_append, cons_lt_cons_iff_toNat, UInt8.toNat_ofNat']
    -- four bytes each, which are digits of the two characters
    rcases Nat.lt_or_ge (v / 262144) (w / 262144) with hfirst | hfirst
    · left
      omega
    · refine .inr ⟨by omega, ?_⟩
      rcases Nat.lt_or_ge (v / 4096) (w / 4096) with hsecond | hsecond
      · left
        omega
      · exact .inr ⟨by omega, by omega⟩

theorem utf8_lt_utf8 {cs ds : List Char} (h : cs < ds) : utf8 cs < utf8 ds := by
  induction cs generalizing ds with
  | nil =>
    cases ds with
    | nil => exact absurd h (List.lt_irrefl [])
    | cons d ds =>
      obtain ⟨b, bytes, hbytes⟩ :=
        List.exists_cons_of_ne_nil (String.utf8EncodeChar_ne_nil (c := d))
      rw [utf8_cons, hbytes]
      exact List.nil_lt_cons b _
  | cons c cs ih =>
    cases ds with
    | nil => exact absurd h (List.not_lt_nil _)
    | cons d ds =>
      rcases List.cons_lt_cons_iff.mp h with hlt | ⟨rfl, hlater⟩
      · exact utf8EncodeChar_append_lt hlt _ _
      · exact List.append_left_lt (ih hlater)

end Reference

/-- The bytes that a string is stored as. -/
def bytesOf (s : String) : List UInt8 :=
  s.toByteArray.data.toList

theorem bytesOf_eq_utf8 (s : String) : bytesOf s = Reference.utf8 s.toList := by
  rw [bytesOf, Reference.toByteArray_eq_utf8, List.toList_data_toByteArray]

theorem lt_iff_bytesOf_lt {s t : String} : s < t ↔ bytesOf s < bytesOf t := by
  have hforward : ∀ {s t : String}, s < t → bytesOf s < bytesOf t := by
    intro s t h
    rw [bytesOf_eq_utf8, bytesOf_eq_utf8]
    exact Reference.utf8_lt_utf8 (String.lt_iff.mp h)
  refine ⟨hforward, fun h ↦ ?_⟩
  rcases lt_trichotomy s t with hlt | rfl | hgt
  · exact hlt
  · exact absurd h (List.lt_irrefl _)
  · exact absurd (List.lt_trans h (hforward hgt)) (List.lt_irrefl _)

/-! ### Comparisons -/

/-- Guards that do not fire together: both fail, or both are booleans that are not both true. -/
def NeverBoth (first second : Except EvalError Value) : Prop :=
  (∃ cause other, first = .error cause ∧ second = .error other) ∨
    ∃ p q, first = .ok (.bool p) ∧ second = .ok (.bool q) ∧ ¬(p = true ∧ q = true)

namespace Value

/-- Both values are integers, or both are strings. -/
def SameOrdered (left right : Value) : Prop :=
  left.kind = .integer ∧ right.kind = .integer ∨ left.kind = .string ∧ right.kind = .string

/-- Wherever two expressions have these values, `<` holds of them. -/
def Below (left right : Value) : Prop :=
  ∀ (env : String → Value) (first second : Expr), first.eval env = .ok left →
    second.eval env = .ok right → (Expr.binary .less first second).eval env = .ok (.bool true)

variable {left right : Value}

theorem compareWith_eq_incomparable (hleft : left.kind ≠ .float) (hright : right.kind ≠ .float)
    (h : ¬left.SameOrdered right) : left.compareWith right = .incomparable := by
  unfold compareWith
  split
  · exact absurd (.inl ⟨rfl, rfl⟩) h
  · exact absurd rfl hright
  · exact absurd rfl hleft
  · exact absurd rfl hleft
  · exact absurd (.inr ⟨rfl, rfl⟩) h
  · rfl

theorem compareWith_int (m n : Int64) :
    (int m).compareWith (int n) = .ordered (compare m.toInt n.toInt) := by
  rw [compareWith]

theorem compareWith_string (s t : String) :
    (string s).compareWith (string t) =
      .ordered (if s < t then .lt else if s = t then .eq else .gt) := by
  rw [compareWith]

/-- Two integers and two strings have an order, and it agrees with `equals` on whether they are
equal. -/
theorem exists_order (h : left.SameOrdered right) :
    ∃ order : Ordering, left.compareWith right = .ordered order ∧
      left.equals right = order.isEq := by
  rcases h with ⟨hleft, hright⟩ | ⟨hleft, hright⟩
  · cases left <;> cases hleft
    cases right <;> cases hright
    rename_i m n
    refine ⟨_, compareWith_int m n, Bool.eq_iff_iff.mpr ?_⟩
    rw [equals, beq_iff_eq, Ordering.isEq_iff_eq_eq, Int.compare_eq_eq, Int64.toInt_inj]
  · cases left <;> cases hleft
    cases right <;> cases hright
    rename_i s t
    refine ⟨_, compareWith_string s t, Bool.eq_iff_iff.mpr ?_⟩
    rw [equals, beq_iff_eq, Ordering.isEq_iff_eq_eq]
    split_ifs with hlt heq
    · exact iff_of_false hlt.ne (by decide)
    · exact iff_of_true heq rfl
    · exact iff_of_false heq (by decide)

end Value

namespace BinaryOp

/-- The operators that ask how two values are ordered, with the orders that they accept. -/
inductive Accepts : BinaryOp → (Ordering → Bool) → Prop where
  | less : Accepts .less Ordering.isLT
  | lessEqual : Accepts .lessEqual Ordering.isLE
  | greater : Accepts .greater Ordering.isGT
  | greaterEqual : Accepts .greaterEqual Ordering.isGE

variable {op other : BinaryOp} {accepts rejects : Ordering → Bool} {left right : Value}

theorem order_of_ordered {result : Ordering} (h : left.compareWith right = .ordered result) :
    op.order accepts left right = .ok (.bool (accepts result)) := by
  rw [order, h]

theorem order_of_incomparable (h : left.compareWith right = .incomparable) :
    op.order accepts left right = .error (op.mismatch left right) := by
  rw [order, h]

/-- Two operators that accept no order in common are never both true. -/
theorem neverBoth_order (h : ∀ result, ¬(accepts result = true ∧ rejects result = true)) :
    NeverBoth (op.order accepts left right) (other.order rejects left right) := by
  cases hcompare : left.compareWith right with
  | incomparable =>
    exact .inl ⟨_, _, order_of_incomparable hcompare, order_of_incomparable hcompare⟩
  | unordered =>
    refine .inr ⟨false, false, ?_, ?_, nofun⟩
    · rw [order, hcompare]
    · rw [order, hcompare]
  | ordered result =>
    exact .inr ⟨_, _, order_of_ordered hcompare, order_of_ordered hcompare, h result⟩

end BinaryOp

section Evaluated

open BinaryOp

variable {op other : BinaryOp} {accepts rejects : Ordering → Bool} {env : String → Value}
  {left right : Expr} {a b : Value}

/-- An ordering operator compares the values of both operands. -/
theorem eval_accepts (hop : Accepts op accepts) :
    (Expr.binary op left right).eval env =
      left.eval env >>= fun a ↦ right.eval env >>= fun b ↦ op.order accepts a b := by
  cases hop <;> rfl

theorem eval_eq_order (hop : Accepts op accepts) (hleft : left.eval env = .ok a)
    (hright : right.eval env = .ok b) :
    (Expr.binary op left right).eval env = op.order accepts a b := by
  rw [eval_accepts hop, hleft, hright]
  rfl

/-- Operators that accept no order in common are never both true, whatever their operands. -/
theorem neverBoth_eval (hop : Accepts op accepts) (hother : Accepts other rejects)
    (h : ∀ result, ¬(accepts result = true ∧ rejects result = true)) :
    NeverBoth ((Expr.binary op left right).eval env) ((Expr.binary other left right).eval env) := by
  rw [eval_accepts hop, eval_accepts hother]
  cases left.eval env with
  | error cause => exact .inl ⟨cause, cause, rfl, rfl⟩
  | ok a =>
    cases right.eval env with
    | error cause => exact .inl ⟨cause, cause, rfl, rfl⟩
    | ok b => exact neverBoth_order h

/-- An ordering operator applies to two integers and to two strings. Apart from doubles it applies
to nothing else. -/
theorem exists_eval_iff_sameOrdered (hop : Accepts op accepts) (hleft : left.eval env = .ok a)
    (hright : right.eval env = .ok b) (ha : a.kind ≠ .float) (hb : b.kind ≠ .float) :
    (∃ value, (Expr.binary op left right).eval env = .ok value) ↔ a.SameOrdered b := by
  rw [eval_eq_order hop hleft hright]
  constructor
  · rintro ⟨value, hvalue⟩
    by_contra h
    rw [order_of_incomparable (Value.compareWith_eq_incomparable ha hb h)] at hvalue
    cases hvalue
  · intro h
    obtain ⟨result, hresult, -⟩ := Value.exists_order h
    exact ⟨_, order_of_ordered hresult⟩

/-- Of two integers or two strings, one of `<`, `==` and `>` holds, and `>=` and `<=` deny the outer
two. -/
theorem eval_of_sameOrdered (hleft : left.eval env = .ok a) (hright : right.eval env = .ok b)
    (h : a.SameOrdered b) :
    ∃ below equal above : Bool,
      (Expr.binary .less left right).eval env = .ok (.bool below) ∧
      (Expr.binary .equal left right).eval env = .ok (.bool equal) ∧
      (Expr.binary .greater left right).eval env = .ok (.bool above) ∧
      (Expr.binary .greaterEqual left right).eval env = .ok (.bool !below) ∧
      (Expr.binary .lessEqual left right).eval env = .ok (.bool !above) ∧
      [below, equal, above].count true = 1 := by
  obtain ⟨result, hresult, hequal⟩ := Value.exists_order h
  have heval : ∀ {op accepts}, Accepts op accepts →
      (Expr.binary op left right).eval env = .ok (.bool (accepts result)) := by
    intro op accepts hop
    rw [eval_eq_order hop hleft hright, order_of_ordered hresult]
  have hequals : (Expr.binary .equal left right).eval env = .ok (.bool result.isEq) := by
    rw [← hequal]
    exact Expr.eval_binary nofun nofun hleft hright
  refine ⟨result.isLT, result.isEq, result.isGT, heval .less, hequals, heval .greater, ?_, ?_, ?_⟩
  · rw [heval .greaterEqual]
    cases result <;> rfl
  · rw [heval .lessEqual]
    cases result <;> rfl
  · cases result <;> rfl

end Evaluated

namespace Value

theorem below_iff {left right : Value} :
    left.Below right ↔ left.compareWith right = .ordered .lt := by
  constructor
  · intro h
    have hless := h (fun _ ↦ .undefined) (.literal left) (.literal right) rfl rfl
    rw [eval_eq_order .less rfl rfl, BinaryOp.order] at hless
    match hcompare : left.compareWith right with
    | .ordered .lt => rfl
    | .ordered .eq | .ordered .gt | .unordered | .incomparable =>
      rw [hcompare] at hless
      cases hless
  · intro h env first second hfirst hsecond
    rw [eval_eq_order .less hfirst hsecond, BinaryOp.order_of_ordered h]
    rfl

theorem below_int_iff {m n : Int64} : (int m).Below (int n) ↔ m.toInt < n.toInt := by
  rw [below_iff, compareWith_int, Comparison.ordered.injEq, Int.compare_eq_lt]

theorem below_string_iff {s t : String} : (string s).Below (string t) ↔ s < t := by
  rw [below_iff, compareWith_string, Comparison.ordered.injEq]
  split_ifs with hlt heq
  · exact iff_of_true rfl hlt
  · exact iff_of_false nofun hlt
  · exact iff_of_false nofun hlt

theorem strictTotalOrder_int : IsStrictTotalOrder Int64 fun m n ↦ (int m).Below (int n) :=
  RelEmbedding.isStrictTotalOrder (s := (· < ·))
    ⟨⟨Int64.toInt, fun _ _ ↦ Int64.toInt_inj.mp⟩, below_int_iff.symm⟩

theorem strictTotalOrder_string :
    IsStrictTotalOrder String fun s t ↦ (string s).Below (string t) :=
  RelEmbedding.isStrictTotalOrder (s := (· < ·)) ⟨.refl String, below_string_iff.symm⟩

end Value

/-- Comparisons of values. For any two expressions, `>` and `<=` either both fail or are booleans of
which one at least is false, and so are `<` and `>=`. If both evaluate, neither to a double, then
the four operators succeed for two integers and for two strings only. Exactly one of `<`, `==` and
`>` then holds, and `>=` and `<=` are the negations of `<` and `>`. On integers `<` is the order of
numbers and on strings the order of their bytes, both strict and total. -/
theorem comparisons_consistent :
    (∀ (env : String → Value) (left right : Expr),
      NeverBoth ((Expr.binary .greater left right).eval env)
          ((Expr.binary .lessEqual left right).eval env) ∧
        NeverBoth ((Expr.binary .less left right).eval env)
          ((Expr.binary .greaterEqual left right).eval env)) ∧
    (∀ (env : String → Value) (left right : Expr) (a b : Value), left.eval env = .ok a →
      right.eval env = .ok b → a.kind ≠ .float → b.kind ≠ .float →
      (∀ op accepts, BinaryOp.Accepts op accepts →
        ((∃ value, (Expr.binary op left right).eval env = .ok value) ↔ a.SameOrdered b)) ∧
      (a.SameOrdered b → ∃ below equal above : Bool,
        (Expr.binary .less left right).eval env = .ok (.bool below) ∧
        (Expr.binary .equal left right).eval env = .ok (.bool equal) ∧
        (Expr.binary .greater left right).eval env = .ok (.bool above) ∧
        (Expr.binary .greaterEqual left right).eval env = .ok (.bool !below) ∧
        (Expr.binary .lessEqual left right).eval env = .ok (.bool !above) ∧
        [below, equal, above].count true = 1)) ∧
    IsStrictTotalOrder Int64 (fun m n ↦ (Value.int m).Below (.int n)) ∧
    (∀ m n : Int64, (Value.int m).Below (.int n) ↔ m.toInt < n.toInt) ∧
    IsStrictTotalOrder String (fun s t ↦ (Value.string s).Below (.string t)) ∧
    ∀ s t : String, (Value.string s).Below (.string t) ↔ bytesOf s < bytesOf t := by
  refine ⟨fun env left right ↦ ⟨?_, ?_⟩, fun env left right a b hleft hright ha hb ↦ ⟨?_, ?_⟩,
    Value.strictTotalOrder_int, fun m n ↦ Value.below_int_iff, Value.strictTotalOrder_string,
    fun s t ↦ Value.below_string_iff.trans lt_iff_bytesOf_lt⟩
  · exact neverBoth_eval .greater .lessEqual (by decide)
  · exact neverBoth_eval .less .greaterEqual (by decide)
  · intro op accepts hop
    exact exists_eval_iff_sameOrdered hop hleft hright ha hb
  · exact eval_of_sameOrdered hleft hright

/-- A scope with an amount and a status. -/
def amountScope : String → Value
  | "amount" => .int 3
  | "status" => .string "z"
  | _ => .undefined

theorem comparisons_consistent_amountScope :
    (Expr.lookup "amount").eval amountScope = .ok (.int 3) ∧
      (Expr.literal (.int 5)).eval amountScope = .ok (.int 5) ∧
      (Value.int 3).SameOrdered (.int 5) ∧
      (∃ value, (Expr.binary .less (.lookup "amount") (.literal (.int 5))).eval amountScope =
        .ok value) ∧
      (Expr.lookup "status").eval amountScope = .ok (.string "z") ∧
      ¬(∃ value, (Expr.binary .less (.lookup "amount") (.lookup "status")).eval amountScope =
        .ok value) ∧
      (Value.string "z").Below (.string "é") ∧ ¬(Value.string "é").Below (.string "z") := by
  obtain ⟨-, hsucceeds, -, -, -, hbytes⟩ := comparisons_consistent
  have hints : (Value.int 3).SameOrdered (.int 5) := .inl ⟨rfl, rfl⟩
  have hmixed : ¬(Value.int 3).SameOrdered (.string "z") := by
    rintro (⟨-, hkind⟩ | ⟨hkind, -⟩) <;> cases hkind
  obtain ⟨hvalue, -⟩ :=
    hsucceeds amountScope (.lookup "amount") (.literal (.int 5)) _ _ rfl rfl nofun nofun
  obtain ⟨hfails, -⟩ :=
    hsucceeds amountScope (.lookup "amount") (.lookup "status") _ _ rfl rfl nofun nofun
  refine ⟨rfl, rfl, hints, (hvalue _ _ .less).mpr hints, rfl, ?_, ?_, ?_⟩
  · intro h
    exact hmixed ((hfails _ _ .less).mp h)
  · rw [hbytes, bytesOf_eq_utf8, bytesOf_eq_utf8]
    decide
  · rw [hbytes, bytesOf_eq_utf8, bytesOf_eq_utf8]
    decide

end FlowGate

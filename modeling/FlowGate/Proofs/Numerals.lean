import FlowGate.Json.Text
import FlowGate.Json.Reader
import FlowGate.Proofs.Runs

/-!
# Integers as JSON numerals

The decimal text of an integer is a numeral without fraction or exponent, and its whole part has no
leading zero (`head?_toDigits_ne`). So the numeral is read whole up to anything that does not go on
with it (`Numeral.scan?_ofInt`), it stands for the integer (`Numeral.toNumber?_ofInt`), and every
integer of JSON is read back from its text (`Number.read?_text_integer`).
-/

set_option autoImplicit false

namespace FlowGate.Json

/-- Decimal digits start with zero for the number zero only. -/
theorem head?_toDigits_ne {n : Nat} (hn : n ≠ 0) : (Nat.toDigits 10 n).head? ≠ some '0' := by
  induction n using Nat.strongRecOn with
  | ind n ih =>
    by_cases hsmall : n < 10
    · rw [Nat.toDigits_of_lt_base hsmall]
      simpa using hn
    · have hlarge : 10 ≤ n := Nat.le_of_not_lt hsmall
      have hfront : n / 10 ≠ 0 := by omega
      rw [Nat.toDigits_of_base_le (by decide) hlarge, List.head?_append,
        Option.or_of_isSome (by simp [Nat.toDigits_ne_nil])]
      exact ih (n / 10) (by omega) hfront

/-- Decimal digits have no leading zero. -/
theorem length_toDigits_le_one {n : Nat} (h : (Nat.toDigits 10 n).head? = some '0') :
    (Nat.toDigits 10 n).length ≤ 1 := by
  by_cases hn : n = 0
  · subst hn
    decide
  · exact absurd h (head?_toDigits_ne hn)

namespace Numeral

/-- The text that a numeral starts with. -/
def sign (negative : Bool) : List Char :=
  if negative then ['-'] else []

/-- The numeral of an integer. -/
def ofInt (n : Int) : Numeral :=
  ⟨decide (n < 0), Nat.toDigits 10 n.natAbs, [], none⟩

/-- What may not follow an integer: it would go on with the numeral. -/
def goesOn (c : Char) : Bool :=
  c.isDigit || c == '.' || c == 'e' || c == 'E'

theorem toList_toString (n : Int) :
    (toString n).toList = sign (ofInt n).negative ++ (ofInt n).whole := by
  cases n with
  | ofNat m => exact Nat.toList_repr
  | negSucc m =>
    have hnegative : (ofInt (Int.negSucc m)).negative = true :=
      decide_eq_true (Int.negSucc_lt_zero m)
    have htext : toString (Int.negSucc m) = "-" ++ (m + 1).repr := rfl
    rw [hnegative, htext, String.toList_append, Nat.toList_repr]
    rfl

theorem eq_minus_or_isDigit {n : Int} {c : Char} (h : c ∈ (toString n).toList) :
    c = '-' ∨ c.isDigit = true := by
  rw [toList_toString] at h
  rcases List.mem_append.mp h with h | h
  · cases hnegative : (ofInt n).negative with
    | true => exact .inl (List.mem_singleton.mp (by simpa [sign, hnegative] using h))
    | false => simp [sign, hnegative] at h
  · exact .inr (Nat.isDigit_of_mem_toDigits (by decide) (by decide) h)

/-- Digits without a leading zero are read whole up to what does not go on with a numeral. -/
theorem scan?_digits (negative : Bool) {digits rest : List Char}
    (hdigits : ∀ d ∈ digits, d.isDigit = true) (hne : digits ≠ [])
    (hzero : digits.head? = some '0' → digits.length ≤ 1)
    (hrest : ∀ c ∈ rest.head?, goesOn c = false) :
    scan? (sign negative ++ (digits ++ rest)) = some (⟨negative, digits, [], none⟩, rest) := by
  simp only [goesOn, Bool.or_eq_false_iff, beq_eq_false_iff_ne, and_assoc] at hrest
  obtain ⟨htake, hdrop⟩ := takeWhile_append_of_stop hdigits fun c hc ↦ (hrest c hc).1
  have hunsigned : ∀ d ∈ (digits ++ rest).head?, d ≠ '-' := by
    obtain ⟨d, others, rfl⟩ := List.exists_cons_of_ne_nil hne
    intro c hc
    cases hc
    rintro rfl
    exact absurd (hdigits '-' List.mem_cons_self) (by decide)
  have hwhole : ¬(digits = [] ∨ (digits.head? = some '0' ∧ 1 < digits.length) ∨
      (false = true ∧ ([] : List Char) = [])) := by
    rintro (hnil | ⟨hhead, hlength⟩ | ⟨hfalse, -⟩)
    · exact hne hnil
    · exact absurd (hzero hhead) (Nat.not_le_of_lt hlength)
    · cases hfalse
  unfold scan?
  split
  rename_i negative' unsigned hsplit
  have hsign : (negative', unsigned) = (negative, digits ++ rest) := by
    rw [← hsplit]
    cases negative with
    | true => rfl
    | false =>
      rw [sign, if_neg Bool.false_ne_true, List.nil_append]
      split
      · rename_i heq
        rw [heq] at hunsigned
        exact absurd rfl (hunsigned '-' rfl)
      · rfl
  cases hsign
  dsimp only
  rw [htake, hdrop]
  split
  · exact absurd rfl (hrest '.' rfl).2.1
  · dsimp only
    rw [if_neg hwhole]
    cases rest with
    | nil => rfl
    | cons c rest => exact if_neg (not_or.mpr (hrest c rfl).2.2)

/-- The text of an integer is read whole up to what does not go on with it. -/
theorem scan?_ofInt (n : Int) {rest : List Char} (hrest : ∀ c ∈ rest.head?, goesOn c = false) :
    scan? ((toString n).toList ++ rest) = some (ofInt n, rest) := by
  have hdigits : ∀ d ∈ (ofInt n).whole, d.isDigit = true := by
    intro d hd
    exact Nat.isDigit_of_mem_toDigits (by decide) (by decide) hd
  rw [toList_toString, List.append_assoc]
  exact scan?_digits _ hdigits Nat.toDigits_ne_nil length_toDigits_le_one hrest

/-- The numeral of an integer of JSON stands for the integer. -/
theorem toNumber?_ofInt (n : Int) (hrange : Integer.least ≤ n ∧ n < UInt64.size) :
    (ofInt n).toNumber? = some (.integer n hrange) := by
  have hdigits : natOfDigits (ofInt n).whole = n.natAbs := Nat.ofDigitChars_ten_toDigits
  have hexact : Number.ofInt? n = some (.integer n hrange) := dif_pos hrange
  have hplain : ¬((ofInt n).fraction ≠ [] ∨ (ofInt n).exponent.isSome = true) := by simp [ofInt]
  rw [toNumber?, hdigits, if_neg hplain]
  by_cases hnegative : n < 0
  · have hne : (n.natAbs : Int) ≠ 0 := by omega
    have habs : -(n.natAbs : Int) = n := by omega
    have hsign : (ofInt n).negative = true := decide_eq_true hnegative
    rw [if_pos hsign, if_neg hne, habs, hexact]
    rfl
  · have habs : (n.natAbs : Int) = n := by omega
    have hsign : ¬(ofInt n).negative = true := by simpa [ofInt] using hnegative
    rw [if_neg hsign, habs, hexact]
    rfl

end Numeral

/-- The text of an integer has no blank. -/
theorem Numeral.isSpace_eq_false {n : Int} {c : Char} (h : c ∈ (toString n).toList) :
    isSpace c = false := by
  rcases eq_minus_or_isDigit h with rfl | hdigit
  · decide
  · refine Bool.eq_false_iff.mpr fun hspace ↦ ?_
    simp only [isSpace, Bool.or_eq_true, decide_eq_true_iff] at hspace
    obtain ((rfl | rfl) | rfl) | rfl := hspace <;> exact absurd hdigit (by decide)

/-- Every integer of JSON is read back from its text. -/
theorem Number.read?_text_integer (n : Int) (hrange : Integer.least ≤ n ∧ n < UInt64.size) :
    Number.read? (Number.integer n hrange).text = some (.integer n hrange) := by
  have hspace : (toString n).toList.dropWhile isSpace = (toString n).toList := by
    cases htext : (toString n).toList with
    | nil => rfl
    | cons c cs =>
      have hc : c ∈ (toString n).toList := htext ▸ List.mem_cons_self
      exact List.dropWhile_cons_of_neg (by simp [Numeral.isSpace_eq_false hc])
  have hscan : Numeral.scan? ((toString n).toList ++ []) = some (Numeral.ofInt n, []) :=
    Numeral.scan?_ofInt n (by simp)
  rw [List.append_nil] at hscan
  rw [Number.read?, Number.text, hspace, hscan]
  exact Numeral.toNumber?_ofInt n hrange

end FlowGate.Json

import FlowGate.Proofs.CoercionOutcomes
import FlowGate.Proofs.Dereferencing
import FlowGate.Proofs.IntegerArithmetic

/-!
# Integers in declared objects

An integer in a declared object is kept as its decimal text until a reference asks for it. The text
is read back as the integer, if 64 bits hold it (`readInteger?_toString`), so a token of an integer
becomes the integer that it was declared as or stays the token that it is (`ofToken_toString`). What
a reference finds under a key of the attribute is this token, read (`resolve?_key`), since the name
is divided at its first point only.
-/

set_option autoImplicit false

namespace FlowGate

open OrderedMap Json

/-! ### Decimal texts of integers -/

/-- Digits have no sign in front. -/
theorem splitSign_digits {digits : List Char} (h : ∀ d ∈ digits, d.isDigit = true) :
    splitSign digits = (false, digits) := by
  cases digits with
  | nil => rfl
  | cons d rest =>
    have hdigit := h d List.mem_cons_self
    have hminus : d ≠ '-' := by
      rintro rfl
      cases hdigit
    have hplus : d ≠ '+' := by
      rintro rfl
      cases hdigit
    simp [splitSign, hminus, hplus]

/-- The decimal text of an integer has a minus if it is negative, and its digits. -/
theorem splitSign_toString (n : Int) :
    splitSign (toString n).toList = (decide (n < 0), Nat.toDigits 10 n.natAbs) := by
  rw [Numeral.toList_toString, Numeral.ofInt]
  by_cases hnegative : n < 0
  · rw [decide_eq_true hnegative]
    rfl
  · rw [decide_eq_false hnegative]
    exact splitSign_digits fun d hd ↦ Nat.isDigit_of_mem_toDigits (by decide) (by decide) hd

/-- An integer is read back from its decimal text if 64 bits hold it. -/
theorem readInteger?_toString (n : Int) : readInteger? (toString n).toList = Integer.ofInt? n := by
  have hdigits : Nat.toDigits 10 n.natAbs ≠ [] ∧
      (Nat.toDigits 10 n.natAbs).all Char.isDigit = true := by
    refine ⟨Nat.toDigits_ne_nil, List.all_eq_true.mpr fun d hd ↦ ?_⟩
    exact Nat.isDigit_of_mem_toDigits (by decide) (by decide) hd
  have hvalue : natOfDigits (Nat.toDigits 10 n.natAbs) = n.natAbs := Nat.ofDigitChars_ten_toDigits
  rw [readInteger?, splitSign_toString]
  dsimp only
  rw [if_pos hdigits, hvalue]
  by_cases hnegative : n < 0
  · rw [if_pos (decide_eq_true hnegative)]
    exact congrArg Integer.ofInt? (by omega)
  · rw [if_neg (by simpa using hnegative)]
    exact congrArg Integer.ofInt? (by omega)

/-- The token of an integer is read as the integer, or else stays a token. -/
theorem ofToken_toString (n : Int) :
    Value.ofToken (toString n) =
      ((Integer.ofInt? n).map Value.int).getD (.token (toString n)) := by
  have hpoint : '.' ∉ (toString n).toList := by
    intro hmem
    rcases Numeral.eq_minus_or_isDigit hmem with hminus | hdigit
    · cases hminus
    · cases hdigit
  rw [Value.ofToken, if_neg hpoint, readInteger?_toString]

/-! ### Keys of attributes -/

/-- What a reference finds under a key of a mapping is what is kept there, read as a number if it is
a token. -/
theorem resolve?_key {scope : Scope} {name key : String} {entries : OrderedMap String Value}
    {value : Value} (hname : '.' ∉ name.toList) (hkey : key.toList ≠ [])
    (hscope : scope name = some (.mapping entries))
    (hentry : Entries.get? key entries = some value) :
    resolve? (name ++ "." ++ key) scope = .ok (some value.normalize) := by
  simp only [resolve?, splitPath_point hname hkey, hscope, hentry, Option.map_some]

/-- An object is coerced field by field, also if it is declared as a text. -/
theorem AttributeType.coerce_of_source {type : AttributeType} {json : Json}
    {fields : OrderedMap String Json} (htype : type = .object ∨ type = .any)
    (hsource : type.source json = .object fields) (name : String) :
    type.coerce name json = coerceObject name fields := by
  rcases htype with rfl | rfl
  · cases json with
    | object others =>
      obtain rfl := Json.object.inj hsource
      rfl
    | string text =>
      cases hread : Json.read? text with
      | none =>
        rw [source, hread] at hsource
        cases hsource
      | some read =>
        rw [source, hread] at hsource
        obtain rfl : read = .object fields := hsource
        simp only [coerce, hread]
    | null | bool _ | number _ | array _ => cases hsource
  · obtain rfl : json = .object fields := hsource
    rfl

/-- What an accepted schema declares an attribute with is coerced. -/
theorem exists_start_of_schema {schema : Schema} {scope : RunScope}
    (hscope : RunScope.ofSchema? schema = .ok scope) {name : String} {declaration : Declaration}
    (hdeclared : Entries.get? name schema = some declaration) :
    ∃ value, declaration.start name = .ok value ∧ scope.get? name = some value := by
  have hsome := RunScope.isSome_get?_of_schema hscope name
  rw [hdeclared, Option.isSome_some, Option.isSome_iff_exists] at hsome
  obtain ⟨value, hvalue⟩ := hsome
  cases hstart : declaration.start name with
  | ok found => exact ⟨found, rfl, RunScope.get?_of_start hscope hdeclared hstart⟩
  | error cause =>
    rw [(RunScope.holds_of_schema hscope).get?_eq, Schema.starting?, hdeclared, Option.bind_some,
      hstart] at hvalue
    cases hvalue

/-- The scope of a schema keeps a number in a declared object as the token of its text. -/
theorem exists_token_of_schema {schema : Schema} {scope : RunScope}
    (hscope : RunScope.ofSchema? schema = .ok scope) {name key : String} {type : AttributeType}
    {json : Json} {fields : OrderedMap String Json} {n : Json.Number}
    (htype : type = .object ∨ type = .any)
    (hdeclared : Entries.get? name schema = some ⟨type, some json⟩)
    (hsource : type.source json = .object fields)
    (hfield : Entries.get? key fields = some (.number n)) :
    ∃ entries, scope.get? name = some (.mapping entries) ∧
      Entries.get? key entries = some (.token n.text) := by
  obtain ⟨value, hstart, hvalue⟩ := exists_start_of_schema hscope hdeclared
  have hcoerce : coerceObject name fields = .ok value :=
    (AttributeType.coerce_of_source htype hsource name).symm.trans hstart
  obtain ⟨entries, hentries, rfl⟩ := coerceObject_eq_ok_iff.mp hcoerce
  refine ⟨entries, hvalue, ?_⟩
  obtain ⟨hnone, -⟩ | ⟨field, entry, hsome, hentry, hget⟩ :=
    Value.get?_of_ofFields? hentries key
  · rw [hfield] at hnone
    cases hnone
  · rw [hfield] at hsome
    cases hsome
    cases hentry
    exact hget

/-- An attribute of type `any` that is declared with an integer has it, if 64 bits hold it. -/
theorem get?_of_any_integer {schema : Schema} {scope : RunScope}
    (hscope : RunScope.ofSchema? schema = .ok scope) {name : String} {n : Int}
    {hrange : Integer.least ≤ n ∧ n < UInt64.size} {i : Int64} (hi : Integer.ofInt? n = some i)
    (hdeclared : Entries.get? name schema = some ⟨.any, some (.number (.integer n hrange))⟩) :
    scope.get? name = some (.int i) := by
  refine RunScope.get?_of_start hscope hdeclared ?_
  have hread : (Json.Number.integer n hrange).toInt64? = some i := hi
  simp only [Declaration.start, AttributeType.coerce, hread]

/-- An integer in a declared object comes back as it was declared. Where an accepted schema declares
an attribute without a point in its name as an object, as such or as anything, and the object has an
integer under a key that is not empty, the reference to the key finds the integer, which is what an
attribute of any type that is declared with it has. An integer that signed 64 bits do not hold is
found as the token of its decimal text. -/
theorem resolve?_nested_integer {schema : Schema} {scope : RunScope}
    (hscope : RunScope.ofSchema? schema = .ok scope) {name key : String}
    (hname : '.' ∉ name.toList) (hkey : key ≠ "") {type : AttributeType} {json : Json}
    {fields : OrderedMap String Json} (htype : type = .object ∨ type = .any)
    (hdeclared : Entries.get? name schema = some ⟨type, some json⟩)
    (hsource : type.source json = .object fields) {n : Int}
    {hrange : Integer.least ≤ n ∧ n < UInt64.size}
    (hfield : Entries.get? key fields = some (.number (.integer n hrange))) :
    (n ≤ Integer.greatest → ∃ i : Int64, i.toInt = n ∧
      resolve? (name ++ "." ++ key) scope.get? = .ok (some (.int i)) ∧
        ∀ (other : Schema) (started : RunScope) (top : String),
          RunScope.ofSchema? other = .ok started →
          Entries.get? top other = some ⟨.any, some (.number (.integer n hrange))⟩ →
            started.get? top = some (.int i)) ∧
      (Integer.greatest < n →
        resolve? (name ++ "." ++ key) scope.get? = .ok (some (.token (toString n)))) := by
  obtain ⟨entries, hmapping, htoken⟩ :=
    exists_token_of_schema hscope htype hdeclared hsource hfield
  have hresolve := resolve?_key hname (mt String.toList_eq_nil_iff.mp hkey) hmapping htoken
  have hread : (Value.token (Json.Number.integer n hrange).text).normalize =
      ((Integer.ofInt? n).map Value.int).getD (.token (toString n)) := ofToken_toString n
  rw [hread] at hresolve
  constructor
  · intro hle
    obtain ⟨i, hi, rfl⟩ := Integer.exists_of_inRange ⟨hrange.1, hle⟩
    rw [hi] at hresolve
    exact ⟨i, rfl, hresolve, fun _ _ _ hother ↦ get?_of_any_integer hother hi⟩
  · intro hlt
    have hnone : Integer.ofInt? n = none :=
      Integer.ofInt?_eq_none_iff.mpr fun h ↦ Int.not_le.mpr hlt h.2
    rw [hnone] at hresolve
    exact hresolve

theorem greatestUnsigned_inRange :
    Integer.least ≤ 18446744073709551615 ∧ (18446744073709551615 : Int) < UInt64.size := by
  decide

/-- The least signed integer and the greatest unsigned one, in an object that is declared as
anything. The key of one has a point in it. The least one is declared at the top as well. -/
def limitsSchema : Schema :=
  .cons "floor" (above_none _) ⟨.any, some (.number (.ofInt64 Int64.minValue))⟩
    (.cons "limits" (above_some (by decide)) ⟨.any, some (.object
      (.cons "count" (above_none _) (.number (.integer _ greatestUnsigned_inRange))
        (.cons "low.bound" (above_some (by decide)) (.number (.ofInt64 Int64.minValue)) .nil)))⟩
      .nil)

theorem resolve?_nested_integer_limits :
    ∃ scope, RunScope.ofSchema? limitsSchema = .ok scope ∧
      resolve? "limits.low.bound" scope.get? = .ok (some (.int Int64.minValue)) ∧
      scope.get? "floor" = some (.int Int64.minValue) ∧
      resolve? "limits.count" scope.get? = .ok (some (.token "18446744073709551615")) := by
  obtain ⟨scope, hscope⟩ : ∃ scope, RunScope.ofSchema? limitsSchema = .ok scope := ⟨_, rfl⟩
  have hname : '.' ∉ "limits".toList := by decide
  have hbound : "low.bound" ≠ "" := by decide
  have hcount : "count" ≠ "" := by decide
  obtain ⟨hsmall, -⟩ := resolve?_nested_integer hscope hname hbound (.inr rfl) rfl rfl rfl
  obtain ⟨i, hi, hresolve, htop⟩ := hsmall (by decide)
  obtain rfl : i = Int64.minValue := Int64.toInt_inj.mp hi
  obtain ⟨-, hlarge⟩ := resolve?_nested_integer hscope hname hcount (.inr rfl) rfl rfl rfl
  exact ⟨scope, hscope, hresolve, htop limitsSchema scope "floor" hscope rfl, hlarge (by decide)⟩

end FlowGate

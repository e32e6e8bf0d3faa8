import FlowGate.Proofs.Reloading

/-!
# What coercion may come to

A declared value is coerced to a value of one of the kinds of its type, or it is refused, and an
array is refused as such wherever it would be lost. `Outcome` lists what may come of a declaration;
it is the one place where types and JSON values are paired (`outcome_coerce`), and what coercion
promises is read off its cases (`coercion_outcomes`).

The parts of an object are compared with the parts of the mapping along a path of keys. A part of
the mapping is the value of the part of the object (`Value.part?_of_ofNested?`), so no number in it
has a type, at any depth.
-/

set_option autoImplicit false

namespace FlowGate

open OrderedMap

/-- The kinds of values that a type stands for, apart from undefined ones. -/
def AttributeType.kinds : AttributeType → List Kind
  | string => [.string]
  | integer => [.integer]
  | number => [.float]
  | boolean => [.boolean]
  | object => [.mapping]
  | any => [.boolean, .integer, .float, .string, .mapping]

/-- An array would be lost: the value is one, or it is an object with an array in it that the type
takes field by field, or it is a text that is read as such an object. -/
inductive AttributeType.MeetsArray : AttributeType → Json → Prop where
  | array (type : AttributeType) (items : List Json) : MeetsArray type (.array items)
  | object {fields : OrderedMap String Json} (harray : (Json.object fields).hasArray = true) :
      MeetsArray .object (.object fields)
  | any {fields : OrderedMap String Json} (harray : (Json.object fields).hasArray = true) :
      MeetsArray .any (.object fields)
  | text {text : String} {fields : OrderedMap String Json}
      (hread : Json.read? text = some (.object fields))
      (harray : (Json.object fields).hasArray = true) : MeetsArray .object (.string text)

/-- The part of an object that a path of keys leads to. -/
def Json.part? (json : Json) : List String → Option Json
  | [] => some json
  | key :: path =>
    match json with
    | .object fields => (Entries.get? key fields).bind fun field ↦ field.part? path
    | _ => none

/-- The part of a mapping that a path of keys leads to. -/
def Value.part? (value : Value) : List String → Option Value
  | [] => some value
  | key :: path =>
    match value with
    | .mapping entries => (Entries.get? key entries).bind fun entry ↦ entry.part? path
    | _ => none

/-- No part of the value is a number that has a type. Its tokens are the numbers of the JSON value,
each with its text. -/
structure Value.KeepsNumbersAsTokens (value : Value) (json : Json) : Prop where
  untyped : ∀ path part, value.part? path = some part → part.kind ≠ .integer ∧ part.kind ≠ .float
  token_of_number : ∀ path n, json.part? path = some (.number n) →
    value.part? path = some (.token n.text)
  number_of_token : ∀ path text, value.part? path = some (.token text) →
    ∃ n, json.part? path = some (.number n) ∧ n.text = text

/-! ### Parts of objects -/

namespace Value

/-- Under a key, a mapping has the value of what the object has there. -/
theorem get?_of_ofFields? {low : Option String} {fields : Entries String Json low}
    {values : Entries String Value low} (h : ofFields? fields = some values) (key : String) :
    fields.get? key = none ∧ values.get? key = none ∨
      ∃ json value, fields.get? key = some json ∧ ofNested? json = some value ∧
        values.get? key = some value := by
  induction fields with
  | nil =>
    cases h
    exact .inl ⟨rfl, rfl⟩
  | cons head above json rest ih =>
    rw [ofFields?] at h
    split at h
    · rename_i value others hvalue hothers
      cases h
      rw [Entries.get?, Entries.get?]
      by_cases hkey : key = head
      · rw [if_pos hkey, if_pos hkey]
        exact .inr ⟨json, value, rfl, hvalue, rfl⟩
      · rw [if_neg hkey, if_neg hkey]
        exact ih hothers
    · cases h

/-- Along a path of keys, a value has the value of what the JSON value has there. -/
theorem part?_of_ofNested? {json : Json} {value : Value} (h : ofNested? json = some value)
    (path : List String) : value.part? path = (json.part? path).bind ofNested? := by
  induction path generalizing json value with
  | nil => exact h.symm
  | cons key path ih =>
    cases json with
    | null | bool _ | number _ | string _ =>
      cases h
      rfl
    | array items => cases h
    | object fields =>
      obtain ⟨values, hvalues, rfl⟩ := Option.map_eq_some_iff.mp h
      rw [part?, Json.part?]
      obtain ⟨hfield, hentry⟩ | ⟨field, entry, hfield, hnested, hentry⟩ :=
        get?_of_ofFields? hvalues key
      · rw [hfield, hentry]
        rfl
      · rw [hfield, hentry]
        exact ih hnested

theorem keepsNumbersAsTokens_of_ofNested? {json : Json} {value : Value}
    (h : ofNested? json = some value) : value.KeepsNumbersAsTokens json where
  untyped := by
    intro path part hpart
    rw [part?_of_ofNested? h] at hpart
    obtain ⟨source, -, hsource⟩ := Option.bind_eq_some_iff.mp hpart
    cases source with
    | null | bool _ | number _ | string _ =>
      cases hsource
      constructor <;> intro hkind <;> cases hkind
    | array items => cases hsource
    | object fields =>
      obtain ⟨values, -, rfl⟩ := Option.map_eq_some_iff.mp hsource
      constructor <;> intro hkind <;> cases hkind
  token_of_number := by
    intro path n hn
    rw [part?_of_ofNested? h, hn]
    rfl
  number_of_token := by
    intro path text htoken
    rw [part?_of_ofNested? h] at htoken
    obtain ⟨source, hsource, hvalue⟩ := Option.bind_eq_some_iff.mp htoken
    cases source with
    | number n =>
      cases hvalue
      exact ⟨n, hsource, rfl⟩
    | null | bool _ | string _ | array _ => cases hvalue
    | object fields =>
      obtain ⟨values, -, hmapping⟩ := Option.map_eq_some_iff.mp hvalue
      cases hmapping

end Value

/-! ### Outcomes -/

namespace AttributeType

/-- What may come of the declaration of a JSON value. -/
inductive Outcome (type : AttributeType) (name : String) (json : Json) :
    Except CoercionError Value → Prop where
  | undefined (hnull : json = .null) : Outcome type name json (.ok .undefined)
  | scalar {value : Value} (hkind : value.kind ∈ type.kinds ∧ value.kind ≠ .mapping) :
      Outcome type name json (.ok value)
  | mapping {fields : OrderedMap String Json} {values : OrderedMap String Value}
      (hkind : .mapping ∈ type.kinds) (hsource : type.source json = .object fields)
      (hvalues : Value.ofFields? fields = some values) :
      Outcome type name json (.ok (.mapping values))
  | array (harray : type.MeetsArray json) :
      Outcome type name json (.error (.unsupportedArray name))
  | mismatch : Outcome type name json (.error (.mismatch name type json.compact))

variable {type : AttributeType} {name : String} {json : Json}

theorem Outcome.of_object {fields : OrderedMap String Json} (hkind : .mapping ∈ type.kinds)
    (hsource : type.source json = .object fields)
    (harray : (Json.object fields).hasArray = true → type.MeetsArray json) :
    type.Outcome name json (coerceObject name fields) := by
  rw [coerceObject]
  cases hvalues : Value.ofFields? fields with
  | none => exact .array (harray ((Value.ofFields?_eq_none_iff fields).mp hvalues))
  | some values => exact .mapping hkind hsource hvalues

theorem outcome_coerce_text (text : String) :
    type.Outcome name (.string text) (type.coerce name (.string text)) := by
  cases type with
  | string | any => exact .scalar (by simp [kinds, Value.kind])
  | integer =>
    simp only [coerce]
    split
    · rename_i hread
      obtain ⟨n, -, rfl⟩ := Option.map_eq_some_iff.mp hread
      exact .scalar (by simp [kinds, Value.kind])
    · exact .mismatch
  | number =>
    simp only [coerce]
    split
    · rename_i hread
      obtain ⟨x, -, rfl⟩ := Option.map_eq_some_iff.mp hread
      exact .scalar (by simp [kinds, Value.kind])
    · exact .mismatch
  | boolean =>
    simp only [coerce]
    split
    · rename_i value hword
      obtain ⟨b, rfl⟩ : ∃ b, value = .bool b := by
        split at hword
        · exact ⟨true, (Option.some.inj hword).symm⟩
        · split at hword
          · exact ⟨false, (Option.some.inj hword).symm⟩
          · cases hword
      exact .scalar (by simp [kinds, Value.kind])
    · exact .mismatch
  | object =>
    simp only [coerce]
    split
    · rename_i fields hread
      have hsource : source .object (.string text) = .object fields := by
        rw [source, hread, Option.getD_some]
      exact .of_object List.mem_cons_self hsource fun harray ↦ .text hread harray
    · exact .mismatch

/-- What may come of a declaration does come of it. -/
theorem outcome_coerce : type.Outcome name json (type.coerce name json) := by
  cases json with
  | null => cases type <;> exact .undefined rfl
  | array items => cases type <;> exact .array (.array _ items)
  | string text => exact outcome_coerce_text text
  | bool b =>
    cases type with
    | string | boolean | any => exact .scalar (by simp [kinds, Value.kind])
    | integer | number | object => exact .mismatch
  | number n =>
    cases type with
    | string | number => exact .scalar (by simp [kinds, Value.kind])
    | integer =>
      simp only [coerce]
      split
      · rename_i hread
        obtain ⟨i, -, rfl⟩ := Option.map_eq_some_iff.mp hread
        exact .scalar (by simp [kinds, Value.kind])
      · exact .mismatch
    | any =>
      simp only [coerce]
      split <;> exact .scalar (by simp [kinds, Value.kind])
    | boolean | object => exact .mismatch
  | object fields =>
    cases type with
    | object => exact .of_object List.mem_cons_self rfl .object
    | any => exact .of_object (by simp [kinds]) rfl .any
    | string | integer | number | boolean => exact .mismatch

/-- A declaration in which an array would be lost is refused because of it. -/
theorem MeetsArray.coerce_eq_error (h : type.MeetsArray json) (name : String) :
    type.coerce name json = .error (.unsupportedArray name) := by
  have hobject : ∀ fields : OrderedMap String Json, (Json.object fields).hasArray = true →
      coerceObject name fields = .error (.unsupportedArray name) := by
    intro fields harray
    rw [coerceObject, (Value.ofFields?_eq_none_iff fields).mpr harray]
  cases h with
  | array items => cases type <;> rfl
  | object harray => exact hobject _ harray
  | any harray => exact hobject _ harray
  | text hread harray =>
    simp only [coerce, hread]
    exact hobject _ harray

/-- What is coerced and is not null becomes a value of a kind of the type. -/
theorem kind_of_coerce {value : Value} (h : type.coerce name json = .ok value)
    (hnull : json ≠ .null) : value.kind ∈ type.kinds := by
  have houtcome : type.Outcome name json (.ok value) := h ▸ outcome_coerce
  cases houtcome with
  | undefined hjson => exact absurd hjson hnull
  | scalar hkind => exact hkind.1
  | mapping hkind => exact hkind

/-- A mapping keeps the numbers of the object that it comes from. -/
theorem keepsNumbersAsTokens_of_coerce {entries : OrderedMap String Value}
    (h : type.coerce name json = .ok (.mapping entries)) :
    ∃ fields, type.source json = .object fields ∧
      (Value.mapping entries).KeepsNumbersAsTokens (.object fields) := by
  have houtcome : type.Outcome name json (.ok (.mapping entries)) := h ▸ outcome_coerce
  cases houtcome with
  | scalar hkind => exact absurd rfl hkind.2
  | @mapping fields _ _ hsource hvalues =>
    have hnested : Value.ofNested? (.object fields) = some (.mapping entries) :=
      Option.map_eq_some_iff.mpr ⟨entries, hvalues, rfl⟩
    exact ⟨fields, hsource, Value.keepsNumbersAsTokens_of_ofNested? hnested⟩

/-- A declaration is refused because of an array, in which case it has one that would be lost, or
because it does not match the type. -/
theorem error_of_coerce {cause : CoercionError} (h : type.coerce name json = .error cause) :
    cause = .unsupportedArray name ∧ type.MeetsArray json ∨
      cause = .mismatch name type json.compact := by
  have houtcome : type.Outcome name json (.error cause) := h ▸ outcome_coerce
  cases houtcome with
  | array harray => exact .inl ⟨rfl, harray⟩
  | mismatch => exact .inr rfl

theorem coerce_eq_unsupportedArray_iff :
    type.coerce name json = .error (.unsupportedArray name) ↔ type.MeetsArray json := by
  constructor
  · intro h
    obtain ⟨-, harray⟩ | hcause := error_of_coerce h
    · exact harray
    · cases hcause
  · intro harray
    exact harray.coerce_eq_error name

end AttributeType

/-- For each type, name and JSON value: null becomes undefined; what else is coerced becomes a value
of a kind of the type; in a mapping no number has a type, at any depth, and the numbers of the
object are kept as tokens of their texts; an array is refused as such exactly where it would be
lost; and a value that is refused for another reason is reported as one that does not match the
type. -/
theorem coercion_outcomes (type : AttributeType) (name : String) (json : Json) :
    (json = .null → type.coerce name json = .ok .undefined) ∧
      (∀ value, type.coerce name json = .ok value → json ≠ .null → value.kind ∈ type.kinds) ∧
      (∀ entries, type.coerce name json = .ok (.mapping entries) →
        ∃ fields, type.source json = .object fields ∧
          (Value.mapping entries).KeepsNumbersAsTokens (.object fields)) ∧
      (type.coerce name json = .error (.unsupportedArray name) ↔ type.MeetsArray json) ∧
      ∀ cause, type.coerce name json = .error cause →
        cause = .unsupportedArray name ∨ cause = .mismatch name type json.compact := by
  refine ⟨?_, fun value h hnull ↦ AttributeType.kind_of_coerce h hnull,
    fun entries h ↦ AttributeType.keepsNumbersAsTokens_of_coerce h,
    AttributeType.coerce_eq_unsupportedArray_iff, fun cause h ↦ ?_⟩
  · rintro rfl
    cases type <;> rfl
  · obtain ⟨hcause, -⟩ | hcause := AttributeType.error_of_coerce h
    · exact .inl hcause
    · exact .inr hcause

/-- An object with an array in an object in it. -/
def listFields : OrderedMap String Json :=
  OrderedMap.ofList [
    ("meta", .object (OrderedMap.ofList [("items", .array [.number (.integer 1 (by decide))])]))]

/-- A text of the object. -/
def listText : String :=
  "\x7b\"meta\": \x7b\"items\": [1]\x7d\x7d"

set_option maxRecDepth 20000 in
theorem read?_listText : Json.read? listText = some (.object listFields) :=
  rfl

/-- An object without arrays that is declared as text keeps an integer that no signed 64 bits hold.
One with an array is refused as text or as anything. Declared as an integer, it has the wrong type
instead. -/
theorem coercion_outcomes_texts :
    (∃ entries, AttributeType.object.coerce "order" (.string orderText) = .ok (.mapping entries) ∧
        (Value.mapping entries).part? ["count"] = some (.token "18446744073709551615")) ∧
      AttributeType.object.coerce "list" (.string listText) = .error (.unsupportedArray "list") ∧
      AttributeType.any.coerce "list" (.object listFields) = .error (.unsupportedArray "list") ∧
      AttributeType.integer.coerce "list" (.object listFields) ≠
        .error (.unsupportedArray "list") := by
  have harray : (Json.object listFields).hasArray = true := rfl
  have hcount : (Json.object orderFields).part? ["count"] =
      some (.number (.integer 18446744073709551615 (by decide))) := rfl
  have hnone : (Json.object orderFields).hasArray = false := rfl
  obtain ⟨values, -, hcoerce⟩ := exists_coerceObject "order" hnone
  have hmapping : AttributeType.object.coerce "order" (.string orderText) =
      .ok (.mapping values) := by
    simp only [AttributeType.coerce, read?_orderText]
    exact hcoerce
  obtain ⟨-, -, hkeeps, -⟩ := coercion_outcomes .object "order" (.string orderText)
  obtain ⟨fields, hsource, htokens⟩ := hkeeps values hmapping
  rw [AttributeType.source, read?_orderText, Option.getD_some] at hsource
  obtain rfl := Json.object.inj hsource
  obtain ⟨-, -, -, htext, -⟩ := coercion_outcomes .object "list" (.string listText)
  obtain ⟨-, -, -, hany, -⟩ := coercion_outcomes .any "list" (.object listFields)
  obtain ⟨-, -, -, hinteger, -⟩ := coercion_outcomes .integer "list" (.object listFields)
  refine ⟨⟨values, hmapping, htokens.token_of_number _ _ hcount⟩,
    htext.mpr (.text read?_listText harray), hany.mpr (.any harray), fun h ↦ ?_⟩
  have hmeets := hinteger.mp h
  cases hmeets

end FlowGate

import FlowGate.Proofs.Numerals
import FlowGate.Scope.Schema

/-!
# Objects as attribute values

An object without arrays becomes a mapping, whether it is declared as an object, as anything, or as
a text that is read as the object, and the JSON form of the mapping is the object again
(`coerce_object_keeps`). The two directions are separate recursions over separate types; what joins
them at a number is its text, which is kept as a token and read again. The text of an integer is
read as the integer (`Json.Number.readsBack_integer`). For a double this is a matter of how JSON
rounds, and the statements ask it of the doubles that the object has.
-/

set_option autoImplicit false

namespace FlowGate

open OrderedMap

namespace Json

mutual

/-- Whether a value is an array or has one in it at some depth. -/
def hasArray : Json → Bool
  | null | bool _ | number _ | string _ => false
  | array _ => true
  | object fields => hasArrayField fields

def hasArrayField {low : Option String} : Entries String Json low → Bool
  | .nil => false
  | .cons _ _ value rest => value.hasArray || hasArrayField rest

end

mutual

/-- The numbers in a value, at any depth. -/
def numbers : Json → List Number
  | null | bool _ | string _ => []
  | number n => [n]
  | array items => itemNumbers items
  | object fields => fieldNumbers fields

def itemNumbers : List Json → List Number
  | [] => []
  | item :: rest => item.numbers ++ itemNumbers rest

def fieldNumbers {low : Option String} : Entries String Json low → List Number
  | .nil => []
  | .cons _ _ value rest => value.numbers ++ fieldNumbers rest

end

/-- The text of a number is read as the number. -/
def Number.ReadsBack (n : Number) : Prop :=
  Number.read? n.text = some n

theorem Number.readsBack_integer (n : Int) (hrange : Integer.least ≤ n ∧ n < UInt64.size) :
    (Number.integer n hrange).ReadsBack :=
  Number.read?_text_integer n hrange

/-- Numbers are read back if the doubles among them are. -/
theorem Number.readsBack_of_doubles {numbers : List Number}
    (h : ∀ x finite, Number.double x finite ∈ numbers → (Number.double x finite).ReadsBack) :
    ∀ n ∈ numbers, n.ReadsBack := by
  intro n hn
  cases n with
  | integer n hrange => exact readsBack_integer n hrange
  | double x finite => exact h x finite hn

end Json

mutual

/-- A part of an object has a value unless there is an array in it. -/
theorem Value.ofNested?_eq_none_iff :
    ∀ json : Json, Value.ofNested? json = none ↔ json.hasArray = true
  | .null | .bool _ | .number _ | .string _ | .array _ => by
    simp [Value.ofNested?, Json.hasArray]
  | .object fields => by
    rw [Value.ofNested?, Json.hasArray, Option.map_eq_none_iff]
    exact Value.ofFields?_eq_none_iff fields

theorem Value.ofFields?_eq_none_iff {low : Option String} :
    ∀ fields : Entries String Json low,
      Value.ofFields? fields = none ↔ Json.hasArrayField fields = true
  | .nil => by simp [Value.ofFields?, Json.hasArrayField]
  | .cons key above json rest => by
    rw [Value.ofFields?, Json.hasArrayField, Bool.or_eq_true,
      ← Value.ofNested?_eq_none_iff json, ← Value.ofFields?_eq_none_iff rest]
    cases Value.ofNested? json <;> cases Value.ofFields? rest <;> simp

end

mutual

/-- The JSON form of the value of a part of an object is the part, if its numbers are read back. -/
theorem Value.toJson_of_ofNested? :
    ∀ {json : Json} {value : Value}, Value.ofNested? json = some value →
      (∀ n ∈ json.numbers, n.ReadsBack) → value.toJson = json
  | .null, _, h, _ | .bool _, _, h, _ | .string _, _, h, _ => by
    cases h
    rfl
  | .number n, _, h, hnumbers => by
    cases h
    have hread : Json.Number.read? n.text = some n := hnumbers n (List.mem_singleton_self n)
    rw [Value.toJson, Value.tokenJson, hread]
  | .array _, _, h, _ => nomatch h
  | .object fields, value, h, hnumbers => by
    obtain ⟨values, hvalues, rfl⟩ := Option.map_eq_some_iff.mp h
    rw [Value.toJson, Value.toJsonEntries_of_ofFields? hvalues hnumbers]

theorem Value.toJsonEntries_of_ofFields? {low : Option String} :
    ∀ {fields : Entries String Json low} {values : Entries String Value low},
      Value.ofFields? fields = some values →
      (∀ n ∈ Json.fieldNumbers fields, n.ReadsBack) → Value.toJsonEntries values = fields
  | .nil, _, h, _ => by
    cases h
    rfl
  | .cons key above json rest, values, h, hnumbers => by
    obtain ⟨hjson, hrest⟩ := List.forall_mem_append.mp hnumbers
    rw [Value.ofFields?] at h
    split at h
    · rename_i value others hvalue hothers
      cases h
      rw [Value.toJsonEntries, Value.toJson_of_ofNested? hvalue hjson,
        Value.toJsonEntries_of_ofFields? hothers hrest]
    · cases h

end

/-- An object without arrays is coerced to a mapping of the values of its parts. -/
theorem exists_coerceObject (name : String) {fields : OrderedMap String Json}
    (harray : (Json.object fields).hasArray = false) :
    ∃ values, Value.ofFields? fields = some values ∧
      coerceObject name fields = .ok (.mapping values) := by
  unfold coerceObject
  cases hvalues : Value.ofFields? fields with
  | none =>
    have hfield : (Json.object fields).hasArray = true :=
      (Value.ofFields?_eq_none_iff fields).mp hvalues
    rw [harray] at hfield
    cases hfield
  | some values => exact ⟨values, rfl, rfl⟩

/-- An object without arrays, declared as an object or as anything, becomes a value, and a text that
is read as the object becomes the same value. The JSON form of the value is the object; what this
asks of JSON is that it reads back the doubles of the object from their texts. -/
theorem coerce_object_keeps (name : String) (fields : OrderedMap String Json)
    (harray : (Json.object fields).hasArray = false) :
    ∃ value, AttributeType.object.coerce name (.object fields) = .ok value ∧
      AttributeType.any.coerce name (.object fields) = .ok value ∧
      (∀ text, Json.read? text = some (.object fields) →
        AttributeType.object.coerce name (.string text) = .ok value) ∧
      ((∀ x finite, .double x finite ∈ (Json.object fields).numbers →
        (Json.Number.double x finite).ReadsBack) → value.toJson = .object fields) := by
  obtain ⟨values, hvalues, hcoerce⟩ := exists_coerceObject name harray
  refine ⟨.mapping values, hcoerce, hcoerce, fun text htext ↦ ?_, fun hdoubles ↦ ?_⟩
  · simp only [AttributeType.coerce, htext]
    exact hcoerce
  · have hnumbers := Json.Number.readsBack_of_doubles hdoubles
    exact congrArg Json.object (Value.toJsonEntries_of_ofFields? hvalues hnumbers)

theorem isFinite_orderTotal : (10.5 : Float).isFinite = true :=
  rfl

/-- A double, an integer that no signed 64 bits hold, and an object with a null and with a string
that looks like a number. -/
def orderFields : OrderedMap String Json :=
  OrderedMap.ofList [
    ("count", .number (.integer 18446744073709551615 (by decide))),
    ("meta", .object (OrderedMap.ofList [("none", .null), ("text", .string "10")])),
    ("total", .number (.double 10.5 isFinite_orderTotal))]

/-- A text of the object. -/
def orderText : String :=
  "\x7b\"total\": 10.5, \"meta\": \x7b\"text\": \"10\", \"none\": null\x7d, " ++
    "\"count\": 18446744073709551615\x7d"

set_option maxRecDepth 20000 in
theorem read?_orderText : Json.read? orderText = some (.object orderFields) :=
  rfl

theorem readsBack_orderTotal : (Json.Number.double 10.5 isFinite_orderTotal).ReadsBack := by
  have htext : (Json.Number.double 10.5 isFinite_orderTotal).text = "10.5" := by
    decide +kernel
  rw [Json.Number.ReadsBack, htext]
  rfl

theorem coerce_object_keeps_orderFields :
    (Json.object orderFields).hasArray = false ∧
      (Json.Number.double 10.5 isFinite_orderTotal).ReadsBack ∧
      Json.read? orderText = some (.object orderFields) ∧
      ∃ value, AttributeType.object.coerce "order" (.object orderFields) = .ok value ∧
        AttributeType.any.coerce "order" (.object orderFields) = .ok value ∧
        AttributeType.object.coerce "order" (.string orderText) = .ok value ∧
        value.toJson = .object orderFields := by
  have harray : (Json.object orderFields).hasArray = false := rfl
  have hnumbers : (Json.object orderFields).numbers =
      [.integer 18446744073709551615 (by decide), .double 10.5 isFinite_orderTotal] := rfl
  obtain ⟨value, hobject, hany, htext, hjson⟩ := coerce_object_keeps "order" orderFields harray
  refine ⟨harray, readsBack_orderTotal, read?_orderText, value, hobject, hany,
    htext orderText read?_orderText, hjson fun x finite hx ↦ ?_⟩
  rw [hnumbers] at hx
  obtain rfl : x = 10.5 := by simpa using hx
  exact readsBack_orderTotal

end FlowGate

import FlowGate.Proofs.ObjectCoercion
import FlowGate.Proofs.ScopeHistories

/-!
# Values that are saved and loaded again

A coerced value that is dumped as JSON and coerced again with the same type is the same value, and
a scope that is dumped and declared again from the dump is the same scope
(`reloaded_values_and_scopes`).

Coercion loses much of what was declared, such as blanks around a number or what a text calls true.
What it comes to is of few forms for each type (`AttributeType.Coerced`), and each of these is
coerced from its own JSON form. Only in an object are numbers kept as text, so only there does it
matter that they are read back.
-/

set_option autoImplicit false

namespace FlowGate

open OrderedMap

/-! ### Values -/

/-- The JSON value that is declared: for an object that is declared as text, the object. -/
def AttributeType.source (type : AttributeType) (json : Json) : Json :=
  match type, json with
  | .object, .string s => (Json.read? s).getD (.string s)
  | _, json => json

/-- The doubles in a value are read back from their texts. -/
def Json.KeepsDoubles (json : Json) : Prop :=
  ∀ x finite, .double x finite ∈ json.numbers → (Json.Number.double x finite).ReadsBack

/-- The values of a type that a JSON value may become. -/
inductive AttributeType.Coerced (type : AttributeType) (json : Json) : Value → Prop where
  | undefined : Coerced type json .undefined
  | bool (htype : type = .boolean ∨ type = .any) (b : Bool) : Coerced type json (.bool b)
  | int (htype : type = .integer ∨ type = .any) (n : Int64) : Coerced type json (.int n)
  | float (htype : type = .number ∨ type = .any) (x : Float) : Coerced type json (.float x)
  | string (htype : type = .string ∨ type = .any) (s : String) : Coerced type json (.string s)
  | mapping (htype : type = .object ∨ type = .any) {fields : OrderedMap String Json}
      {values : OrderedMap String Value} (hsource : type.source json = .object fields)
      (hvalues : Value.ofFields? fields = some values) : Coerced type json (.mapping values)

theorem coerceObject_eq_ok_iff {name : String} {fields : OrderedMap String Json} {value : Value} :
    coerceObject name fields = .ok value ↔
      ∃ values, Value.ofFields? fields = some values ∧ value = .mapping values := by
  unfold coerceObject
  cases Value.ofFields? fields with
  | none => simp
  | some values => simp [eq_comm]

namespace AttributeType

variable {type : AttributeType} {name : String} {json : Json} {value : Value}

theorem Coerced.of_object (htype : type = .object ∨ type = .any) {fields : OrderedMap String Json}
    (hsource : type.source json = .object fields) (h : coerceObject name fields = .ok value) :
    type.Coerced json value := by
  obtain ⟨values, hvalues, rfl⟩ := coerceObject_eq_ok_iff.mp h
  exact .mapping htype hsource hvalues

theorem Coerced.of_text {text : String} (h : type.coerce name (.string text) = .ok value) :
    type.Coerced (.string text) value := by
  cases type with
  | string =>
    cases h
    exact .string (.inl rfl) text
  | any =>
    cases h
    exact .string (.inr rfl) text
  | integer =>
    simp only [coerce] at h
    split at h
    · rename_i hread
      obtain ⟨n, -, rfl⟩ := Option.map_eq_some_iff.mp hread
      cases h
      exact .int (.inl rfl) n
    · cases h
  | number =>
    simp only [coerce] at h
    split at h
    · rename_i hread
      obtain ⟨x, -, rfl⟩ := Option.map_eq_some_iff.mp hread
      cases h
      exact .float (.inl rfl) x
    · cases h
  | boolean =>
    simp only [coerce] at h
    split at h
    · rename_i hword
      cases h
      obtain ⟨b, rfl⟩ : ∃ b, value = .bool b := by
        split at hword
        · exact ⟨true, (Option.some.inj hword).symm⟩
        · split at hword
          · exact ⟨false, (Option.some.inj hword).symm⟩
          · cases hword
      exact .bool (.inl rfl) b
    · cases h
  | object =>
    simp only [coerce] at h
    split at h
    · rename_i fields hread
      have hsource : AttributeType.object.source (.string text) = .object fields := by
        rw [source, hread, Option.getD_some]
      exact .of_object (.inl rfl) hsource h
    · cases h

/-- What a JSON value is coerced to is a value of the type. -/
theorem coerced_of_coerce (h : type.coerce name json = .ok value) : type.Coerced json value := by
  cases json with
  | null =>
    obtain rfl : value = .undefined := by cases type <;> cases h <;> rfl
    exact .undefined
  | array items => cases type <;> cases h
  | string text => exact .of_text h
  | bool b =>
    cases type with
    | string =>
      cases h
      exact .string (.inl rfl) _
    | boolean =>
      cases h
      exact .bool (.inl rfl) b
    | any =>
      cases h
      exact .bool (.inr rfl) b
    | integer | number | object => cases h
  | number n =>
    cases type with
    | string =>
      cases h
      exact .string (.inl rfl) n.text
    | integer =>
      simp only [coerce] at h
      split at h
      · rename_i hread
        obtain ⟨i, -, rfl⟩ := Option.map_eq_some_iff.mp hread
        cases h
        exact .int (.inl rfl) i
      · cases h
    | number =>
      cases h
      exact .float (.inl rfl) n.toFloat
    | any =>
      simp only [coerce] at h
      split at h
      · cases h
        exact .int (.inr rfl) _
      · cases h
        exact .float (.inr rfl) n.toFloat
    | boolean | object => cases h
  | object fields =>
    cases type with
    | object => exact .of_object (.inl rfl) rfl h
    | any => exact .of_object (.inr rfl) rfl h
    | string | integer | number | boolean => cases h

/-- A value of the type is coerced from its JSON form. -/
theorem Coerced.coerce_toJson (h : type.Coerced json value) (name : String)
    (hfinite : ∀ x, value = .float x → x.isFinite = true)
    (hkeeps : ∀ fields, type.source json = .object fields → (Json.object fields).KeepsDoubles) :
    type.coerce name value.toJson = .ok value := by
  cases h with
  | undefined => cases type <;> rfl
  | bool htype b => obtain rfl | rfl := htype <;> rfl
  | string htype s => obtain rfl | rfl := htype <;> rfl
  | int htype n =>
    have hn : (Json.Number.ofInt64 n).toInt64? = some n := Integer.ofInt?_toInt n
    obtain rfl | rfl := htype <;> simp only [Value.toJson, coerce, hn, Option.map_some]
  | float htype x =>
    have hx : Json.Number.ofFloat? x = some (.double x (hfinite x rfl)) := dif_pos (hfinite x rfl)
    rw [Value.toJson, hx]
    obtain rfl | rfl := htype <;> rfl
  | @mapping htype fields values hsource hvalues =>
    -- the one form in which numbers are kept as texts, which are read again
    have hnumbers := Json.Number.readsBack_of_doubles (hkeeps fields hsource)
    have hjson : (Value.mapping values).toJson = .object fields :=
      congrArg Json.object (Value.toJsonEntries_of_ofFields? hvalues hnumbers)
    have hobject : coerceObject name fields = .ok (.mapping values) :=
      coerceObject_eq_ok_iff.mpr ⟨values, hvalues, rfl⟩
    rw [hjson]
    obtain rfl | rfl := htype <;> exact hobject

end AttributeType

/-! ### Scopes -/

/-- Declarations of the same attributes with the same types, and with the values of a dump. -/
def redeclare (dump : OrderedMap String Json) {low : Option String} :
    Entries String Declaration low → Entries String Declaration low
  | .nil => .nil
  | .cons name above declaration rest =>
    .cons name above ⟨declaration.type, Entries.get? name dump⟩ (redeclare dump rest)

/-- Declared attributes are those with a starting value. -/
theorem isSome_get?_startingValues {low : Option String}
    {declarations : Entries String Declaration low} {values : Entries String Value low}
    (h : startingValues declarations = .ok values) (name : String) :
    (values.get? name).isSome = (declarations.get? name).isSome := by
  induction declarations with
  | nil =>
    obtain rfl := Except.ok.inj h
    rfl
  | cons head above declaration rest ih =>
    obtain ⟨value, others, -, hothers, rfl⟩ := startingValues_cons_eq_ok_iff.mp h
    rw [Entries.get?, Entries.get?]
    split
    · rfl
    · exact ih hothers

/-- Declarations with other values start with the same ones if each of them does. -/
theorem startingValues_redeclare {dump : OrderedMap String Json} {low : Option String}
    {declarations : Entries String Declaration low} {values : Entries String Value low}
    (h : startingValues declarations = .ok values)
    (hstart : ∀ name declaration value, declarations.get? name = some declaration →
      declaration.start name = .ok value →
        Declaration.start ⟨declaration.type, Entries.get? name dump⟩ name = .ok value) :
    startingValues (redeclare dump declarations) = .ok values := by
  induction declarations with
  | nil => exact h
  | cons head above declaration rest ih =>
    obtain ⟨value, others, hvalue, hothers, rfl⟩ := startingValues_cons_eq_ok_iff.mp h
    have hrest := ih hothers fun name found value hfound ↦
      hstart name found value (Entries.get?_cons_of_rest hfound)
    exact startingValues_cons_eq_ok_iff.mpr
      ⟨value, others, hstart head declaration value (if_pos rfl) hvalue, hrest, rfl⟩

/-- The scope of a schema answers for the declared attributes. -/
theorem RunScope.isSome_get?_of_schema {schema : Schema} {scope : RunScope}
    (h : ofSchema? schema = .ok scope) (name : String) :
    (scope.get? name).isSome = (Entries.get? name schema).isSome := by
  obtain ⟨values, hvalues, rfl⟩ := map_eq_ok_iff.mp h
  have hinherited : inherited? ⟨values, []⟩ name = none := rfl
  rw [get?_eq, hinherited, Option.or_none]
  exact isSome_get?_startingValues hvalues name

/-- The scope of a schema answers for a declared attribute with the value that it starts with. -/
theorem RunScope.get?_of_start {schema : Schema} {scope : RunScope}
    (h : ofSchema? schema = .ok scope) {name : String} {declaration : Declaration} {value : Value}
    (hdeclared : Entries.get? name schema = some declaration)
    (hstart : declaration.start name = .ok value) : scope.get? name = some value := by
  rw [(holds_of_schema h).get?_eq, Schema.starting?, hdeclared, Option.bind_some, hstart]
  rfl

/-- The starting value of a declaration, if it is declared as its JSON form. -/
theorem Declaration.start_toJson {declaration : Declaration} {name : String} {value : Value}
    (h : declaration.start name = .ok value) (hfinite : ∀ x, value = .float x → x.isFinite = true)
    (hkeeps : ∀ json fields, declaration.value = some json →
      declaration.type.source json = .object fields → (Json.object fields).KeepsDoubles) :
    start ⟨declaration.type, some value.toJson⟩ name = .ok value := by
  obtain ⟨type, _ | json⟩ := declaration
  · obtain rfl := Except.ok.inj h
    cases type <;> rfl
  · have hcoerce : type.coerce name json = .ok value := h
    exact (AttributeType.coerced_of_coerce hcoerce).coerce_toJson name hfinite
      fun fields hsource ↦ hkeeps json fields rfl hsource

/-- Saving and loading again. The JSON form of a coerced value is coerced to the value. The JSON
form of a scope that was loaded from a schema is an object of the declared attributes, and if they
are declared with the same types and with what they have in the object, the same scope is loaded.
Doubles have to be finite, since JSON has no others. Of JSON this asks that it reads back the
doubles in declared objects from their texts. -/
theorem reloaded_values_and_scopes :
    (∀ (type : AttributeType) (name : String) (json : Json) (value : Value),
      type.coerce name json = .ok value →
      (∀ x, value = .float x → x.isFinite = true) →
      (∀ fields, type.source json = .object fields → (Json.object fields).KeepsDoubles) →
        type.coerce name value.toJson = .ok value) ∧
    ∀ (schema : Schema) (scope : RunScope),
      RunScope.ofSchema? schema = .ok scope →
      (∀ name x, scope.get? name = some (.float x) → x.isFinite = true) →
      (∀ name declaration json fields, Entries.get? name schema = some declaration →
        declaration.value = some json → declaration.type.source json = .object fields →
          (Json.object fields).KeepsDoubles) →
        ∃ dump, scope.toJson = .object dump ∧
          (∀ name, OrderedMap.contains dump name = OrderedMap.contains schema name) ∧
          RunScope.ofSchema? (redeclare dump schema) = .ok scope := by
  refine ⟨fun type name json value hvalue hfinite hkeeps ↦
    (AttributeType.coerced_of_coerce hvalue).coerce_toJson name hfinite hkeeps,
    fun schema scope hscope hfinite hkeeps ↦ ?_⟩
  obtain ⟨dump, hdump, hentries⟩ := scope.exists_toJson_eq
  obtain ⟨values, hvalues, hlayers⟩ := map_eq_ok_iff.mp hscope
  refine ⟨dump, hdump, fun name ↦ ?_,
    map_eq_ok_iff.mpr ⟨values, startingValues_redeclare hvalues ?_, hlayers⟩⟩
  · rw [OrderedMap.contains, hentries, Option.isSome_map]
    exact RunScope.isSome_get?_of_schema hscope name
  · intro name declaration value hdeclared hstart
    have hanswer := RunScope.get?_of_start hscope hdeclared hstart
    have hdumped : Entries.get? name dump = some value.toJson := by
      rw [hentries, hanswer, Option.map_some]
    rw [hdumped]
    refine Declaration.start_toJson hstart (fun x hx ↦ ?_) fun json fields ↦
      hkeeps name declaration json fields hdeclared
    subst hx
    exact hfinite name x hanswer

/-- A number with blanks around it, an attribute without a value, an object with a double, as text,
and a double. -/
def mixedSchema : Schema :=
  .cons "count" (above_none _) ⟨.integer, some (.string " 42 ")⟩
    (.cons "note" (above_some (by decide)) ⟨.string, none⟩
      (.cons "order" (above_some (by decide)) ⟨.object, some (.string orderText)⟩
        (.cons "total" (above_some (by decide))
          ⟨.any, some (.number (.double 10.5 isFinite_orderTotal))⟩ .nil)))

/-- What the attributes start with, given the value of the object. -/
def mixedScope (order : Value) : RunScope where
  own := .cons "count" (above_none _) (.int 42)
    (.cons "note" (above_some (by decide)) .undefined
      (.cons "order" (above_some (by decide)) order
        (.cons "total" (above_some (by decide)) (.float 10.5) .nil)))
  inherited := []

theorem ofSchema?_mixedSchema {order : Value}
    (h : AttributeType.object.coerce "order" (.string orderText) = .ok order) :
    RunScope.ofSchema? mixedSchema = .ok (mixedScope order) := by
  have hcount : Declaration.start ⟨.integer, some (.string " 42 ")⟩ "count" = .ok (.int 42) := rfl
  have hnote : Declaration.start ⟨.string, none⟩ "note" = .ok .undefined := rfl
  have horder : Declaration.start ⟨.object, some (.string orderText)⟩ "order" = .ok order := h
  have htotal : Declaration.start ⟨.any, some (.number (.double 10.5 isFinite_orderTotal))⟩
      "total" = .ok (.float 10.5) := rfl
  have hstart : startingValues mixedSchema = .ok (mixedScope order).own :=
    startingValues_cons_eq_ok_iff.mpr ⟨.int 42, _, hcount,
      startingValues_cons_eq_ok_iff.mpr ⟨.undefined, _, hnote,
        startingValues_cons_eq_ok_iff.mpr ⟨order, _, horder,
          startingValues_cons_eq_ok_iff.mpr ⟨.float 10.5, .nil, htotal, rfl, rfl⟩, rfl⟩, rfl⟩, rfl⟩
  rw [RunScope.ofSchema?, hstart]
  rfl

theorem isFinite_mixedScope (values : OrderedMap String Value) (name : String) (x : Float)
    (h : (mixedScope (.mapping values)).get? name = some (.float x)) : x.isFinite = true := by
  have hinherited : (mixedScope (.mapping values)).inherited? name = none := rfl
  rw [RunScope.get?_eq, hinherited, Option.or_none] at h
  simp only [mixedScope, Entries.get?] at h
  split at h
  · cases h
  split at h
  · cases h
  split at h
  · cases h
  split at h
  · cases h
    exact isFinite_orderTotal
  · cases h

theorem keepsDoubles_orderText (fields : OrderedMap String Json)
    (h : AttributeType.object.source (.string orderText) = .object fields) :
    (Json.object fields).KeepsDoubles := by
  have hnumbers : (Json.object orderFields).numbers =
      [.integer 18446744073709551615 (by decide), .double 10.5 isFinite_orderTotal] := rfl
  rw [AttributeType.source, read?_orderText, Option.getD_some] at h
  obtain rfl := Json.object.inj h
  intro x finite hx
  rw [hnumbers] at hx
  obtain rfl : x = 10.5 := by simpa using hx
  exact readsBack_orderTotal

theorem keepsDoubles_mixedSchema (name : String) (declaration : Declaration) (json : Json)
    (fields : OrderedMap String Json) (h : Entries.get? name mixedSchema = some declaration)
    (hjson : declaration.value = some json)
    (hsource : declaration.type.source json = .object fields) :
    (Json.object fields).KeepsDoubles := by
  simp only [mixedSchema, Entries.get?] at h
  split at h
  · cases h
    cases hjson
    cases hsource
  split at h
  · cases h
    cases hjson
  split at h
  · cases h
    cases hjson
    exact keepsDoubles_orderText fields hsource
  split at h
  · cases h
    cases hjson
    cases hsource
  · cases h

theorem reloaded_values_and_scopes_mixed :
    ∃ order dump,
      AttributeType.object.coerce "order" (.string orderText) = .ok order ∧
      AttributeType.object.coerce "order" order.toJson = .ok order ∧
      RunScope.ofSchema? mixedSchema = .ok (mixedScope order) ∧
      (mixedScope order).toJson = .object dump ∧
      RunScope.ofSchema? (redeclare dump mixedSchema) = .ok (mixedScope order) := by
  obtain ⟨hvalue, hscope⟩ := reloaded_values_and_scopes
  have harray : (Json.object orderFields).hasArray = false := rfl
  obtain ⟨values, -, hobject⟩ := exists_coerceObject "order" harray
  have horder : AttributeType.object.coerce "order" (.string orderText) =
      .ok (.mapping values) := by
    simp only [AttributeType.coerce, read?_orderText]
    exact hobject
  have hmapping : ∀ x, Value.mapping values = .float x → x.isFinite = true := by
    intro x hx
    cases hx
  have hloaded := ofSchema?_mixedSchema horder
  obtain ⟨dump, hdump, -, hagain⟩ := hscope mixedSchema _ hloaded (isFinite_mixedScope values)
    keepsDoubles_mixedSchema
  exact ⟨.mapping values, dump, horder,
    hvalue .object "order" _ _ horder hmapping keepsDoubles_orderText, hloaded, hdump, hagain⟩

end FlowGate

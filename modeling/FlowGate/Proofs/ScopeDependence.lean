import FlowGate.Flow.Gate

/-!
# What a decision depends on

A gate learns of a scope only the readings of the references of its link (`reading`): the value that
a reference finds, or why it cannot be followed. A reference that finds nothing reads as one that
finds `undefined`. Scopes with the same readings give the same context with the same events
(`contextOf_congr`), and so the same attempt and decision (`Registry.decidesAlike_of_reading`).

A reading in turn depends only on what the scope holds under the attribute of the reference
(`reading_eq`), and of a mapping only on the entry under the key of the reference. So neither other
attributes nor other keys nor an `undefined` that is taken away can change a decision
(`Registry.decidesAlike_of_same_references`).
-/

set_option autoImplicit false

namespace FlowGate

open OrderedMap

/-- What a gate learns of a reference in a scope. Nothing found counts as `undefined`. -/
def reading (scope : Scope) (name : String) : Except PathMismatch Value :=
  (resolve? name scope).map fun value ↦ value.getD .undefined

/-! ### Contexts from readings -/

/-- Adding an attribute to a context takes only its reading from the scope. -/
theorem addToContext_eq (scope : Scope) (values : OrderedMap String Value) (name : String) :
    addToContext scope values name =
      if OrderedMap.contains values name then pure values
      else match reading scope name with
        | .ok value => pure (values.insert name value)
        | .error cause => ⟨values.insert name .undefined, [.mismatch cause]⟩ := by
  unfold addToContext resolveOrReport reading
  cases resolve? name scope with
  | ok value => rfl
  | error cause => rfl

/-- Scopes with the same readings give the same context and report the same on the way. -/
theorem contextOf_congr {attributes : List String} {first second : Scope}
    (h : ∀ name ∈ attributes, reading first name = reading second name) :
    contextOf attributes first = contextOf attributes second := by
  unfold contextOf
  generalize (OrderedMap.empty : OrderedMap String Value) = values
  induction attributes generalizing values with
  | nil => rfl
  | cons name rest ih =>
    obtain ⟨hname, hrest⟩ := List.forall_mem_cons.mp h
    have hadd : addToContext first values name = addToContext second values name := by
      rw [addToContext_eq, addToContext_eq, hname]
    rw [List.foldlM_cons, List.foldlM_cons, hadd]
    exact congrArg _ (funext (ih hrest))

/-! ### Readings from what a scope holds -/

/-- A reading is made of what the scope holds under the attribute of the reference. -/
theorem reading_eq (scope : Scope) (name : String) :
    reading scope name =
      match (splitPath name).2, (scope (splitPath name).1).getD .undefined with
      | none, value => .ok value
      | some key, .mapping entries =>
        .ok (((Entries.get? key entries).map Value.normalize).getD .undefined)
      | some _, .undefined => .ok .undefined
      | some key, value => .error ⟨name, key, value.kind⟩ := by
  unfold reading resolve?
  generalize splitPath name = path
  obtain ⟨head, key⟩ := path
  dsimp only
  cases hheld : scope head with
  | none => cases key <;> rfl
  | some value =>
    cases key with
    | none => rfl
    | some key => cases value <;> rfl

/-- Where two scopes hold the same under an attribute, or one `undefined` and the other nothing,
its references read the same. -/
theorem reading_congr {first second : Scope} {name : String}
    (h : (first (splitPath name).1).getD .undefined =
      (second (splitPath name).1).getD .undefined) :
    reading first name = reading second name := by
  rw [reading_eq, reading_eq, h]

/-- Where two scopes hold mappings with the same entry under a key, the reference to the key reads
the same. -/
theorem reading_congr_of_key {first second : Scope} {name key : String}
    {entries others : OrderedMap String Value}
    (hfirst : first (splitPath name).1 = some (.mapping entries))
    (hsecond : second (splitPath name).1 = some (.mapping others))
    (hkey : (splitPath name).2 = some key)
    (hentry : Entries.get? key entries = Entries.get? key others) :
    reading first name = reading second name := by
  rw [reading_eq, reading_eq, hfirst, hsecond, hkey]
  dsimp only [Option.getD_some]
  rw [hentry]

/-! ### Setting and removing attributes -/

namespace RunScope

/-- A set attribute has its value, and the others have what they had. -/
theorem get?_set (scope : RunScope) (set : String) (value : Value) (name : String) :
    (scope.set set value).get? name = if name = set then some value else scope.get? name := by
  unfold get? RunScope.set
  simp only [List.findSome?_cons, get?_insert]
  by_cases hname : name = set
  · rw [if_pos hname, if_pos hname]
  · rw [if_neg hname, if_neg hname]

/-- Without inherited layers a removed attribute is gone. -/
theorem get?_remove {scope : RunScope} (hroot : scope.inherited = []) (removed name : String) :
    (scope.remove removed).get? name = if name = removed then none else scope.get? name := by
  unfold get? remove
  simp only [hroot, List.findSome?_singleton, get?_erase]

/-- Removing attributes one after another takes away all of them and nothing else. -/
theorem get?_foldl_remove {scope : RunScope} (hroot : scope.inherited = []) (removed : List String)
    (name : String) :
    (removed.foldl remove scope).get? name = if name ∈ removed then none else scope.get? name := by
  induction removed generalizing scope with
  | nil => simp
  | cons head rest ih =>
    have hremove : (scope.remove head).inherited = [] := hroot
    rw [List.foldl_cons, ih hremove, get?_remove hroot]
    by_cases hrest : name ∈ rest
    · simp [hrest]
    · simp [hrest]

end RunScope

/-! ### Decisions -/

namespace Registry

/-- The attributes that the entry of an identity refers to. -/
def references (registry : Registry) (id : UInt32) : List String :=
  match Entries.get? id registry with
  | some entry => entry.attributes
  | none => []

/-- A gate makes no difference between two scopes when it decides a link: it evaluates in the same
context, comes to the same outcome, and reports the same. -/
structure DecidesAlike (registry : Registry) (link : Link) (first second : Scope) : Prop where
  context : contextOf (registry.references link.id) first =
    contextOf (registry.references link.id) second
  attempt : registry.tryDecide first link = registry.tryDecide second link
  decision : registry.decide first link = registry.decide second link

/-- Scopes in which the references of a link read the same decide it alike. -/
theorem decidesAlike_of_reading {registry : Registry} {link : Link} {first second : Scope}
    (h : ∀ name ∈ registry.references link.id, reading first name = reading second name) :
    registry.DecidesAlike link first second := by
  have hcontext := contextOf_congr h
  have hattempt : registry.tryDecide first link = registry.tryDecide second link := by
    unfold tryDecide
    cases link.type with
    | dependency => rfl
    | expression =>
      unfold references at hcontext
      cases hentry : Entries.get? link.id registry with
      | none => rfl
      | some entry =>
        rw [hentry] at hcontext
        dsimp only at hcontext ⊢
        rw [hcontext]
  refine ⟨hcontext, hattempt, ?_⟩
  rw [decide, decide, hattempt]

/-- Two scopes decide a link alike if its references read the same in both. They do so if the scopes
hold the same under the attributes that the link refers to, whatever else they hold; if they differ
under one attribute only, hold mappings there, and the link reads of them only keys that have the
same entry; and if one scope has no parent and is the other without some attributes whose value is
`undefined`. -/
theorem decidesAlike_of_same_references (registry : Registry) (link : Link) :
    (∀ first second : Scope,
      (∀ name ∈ registry.references link.id, reading first name = reading second name) →
      registry.DecidesAlike link first second) ∧
    (∀ first second : Scope,
      (∀ name ∈ registry.references link.id,
        first (splitPath name).1 = second (splitPath name).1) →
      registry.DecidesAlike link first second) ∧
    (∀ (first second : Scope) (held : String) (entries others : OrderedMap String Value),
      first held = some (.mapping entries) → second held = some (.mapping others) →
      (∀ other, other ≠ held → first other = second other) →
      (∀ name ∈ registry.references link.id, (splitPath name).1 = held →
        ∃ key, (splitPath name).2 = some key ∧
          Entries.get? key entries = Entries.get? key others) →
      registry.DecidesAlike link first second) ∧
    ∀ (scope : RunScope) (removed : List String), scope.inherited = [] →
      (∀ name ∈ removed, scope.get? name = some .undefined) →
      registry.DecidesAlike link (removed.foldl RunScope.remove scope).get? scope.get? := by
  refine ⟨fun first second h ↦ decidesAlike_of_reading h, ?_, ?_, ?_⟩
  · intro first second h
    refine decidesAlike_of_reading fun name hname ↦ reading_congr ?_
    rw [h name hname]
  · intro first second held entries others hfirst hsecond hothers hkeys
    refine decidesAlike_of_reading fun name hname ↦ ?_
    by_cases hheld : (splitPath name).1 = held
    · obtain ⟨key, hkey, hentry⟩ := hkeys name hname hheld
      rw [← hheld] at hfirst hsecond
      exact reading_congr_of_key hfirst hsecond hkey hentry
    · refine reading_congr ?_
      rw [hothers _ hheld]
  · intro scope removed hroot hundefined
    refine decidesAlike_of_reading fun name _ ↦ reading_congr ?_
    rw [RunScope.get?_foldl_remove hroot]
    by_cases hname : (splitPath name).1 ∈ removed
    · rw [if_pos hname, hundefined _ hname]
      rfl
    · rw [if_neg hname]

/-- A link over one key of an attribute and over another attribute. -/
def paidLink : Link :=
  ⟨4, "open", "paid", .expression, some "$order.paid && $hold == null"⟩

/-- The registry of the link. -/
def paidRegistry : Registry :=
  OrderedMap.ofList [(4, ⟨["order.paid", "hold"],
    "lookup(\"order.paid\") && lookup(\"hold\") == null",
    .binary .and (.lookup "order.paid") (.binary .equal (.lookup "hold") (.literal .undefined))⟩)]

/-- A paid order with a note, and an attribute without a value. -/
def paidScope (note : String) : RunScope :=
  (RunScope.empty.set "order" (.mapping (OrderedMap.ofList
    [("paid", .bool true), ("note", .string note)]))).set "hold" .undefined

theorem decidesAlike_of_same_references_paidLink :
    (∀ name ∈ paidRegistry.references paidLink.id, (splitPath name).1 = "order" →
      (splitPath name).2 = some "paid") ∧
    (paidScope "first").inherited = [] ∧ (paidScope "first").get? "hold" = some .undefined ∧
    paidRegistry.DecidesAlike paidLink (paidScope "first").get? (paidScope "second").get? ∧
    paidRegistry.DecidesAlike paidLink ((paidScope "first").remove "hold").get?
      (paidScope "first").get? ∧
    (paidRegistry.tryDecide (paidScope "first").get? paidLink).value = .ok true := by
  obtain ⟨-, -, hkeys, hremoved⟩ := decidesAlike_of_same_references paidRegistry paidLink
  have hreferences : ∀ name ∈ paidRegistry.references paidLink.id, (splitPath name).1 = "order" →
      (splitPath name).2 = some "paid" := by
    decide
  refine ⟨hreferences, rfl, rfl, ?_, ?_, rfl⟩
  · refine hkeys _ _ "order" _ _ rfl rfl (fun other hother ↦ ?_) fun name hname hheld ↦
      ⟨"paid", hreferences name hname hheld, rfl⟩
    simp only [paidScope, RunScope.get?_set, if_neg hother]
  · exact hremoved (paidScope "first") ["hold"] rfl (by simp; rfl)

end Registry

end FlowGate

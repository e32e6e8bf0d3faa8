import FlowGate.Flow.Gate

/-!
# The values an expression sees

A gate evaluates an expression in a context that holds the attributes of its link and nothing else.
`get?_contextOf` says what the context holds: each listed attribute has the value of its reference,
whichever way the list repeats attributes. `eval_congr` says that an expression depends only on the
names that it looks up, so a context that lists all of them is as good as the whole scope
(`eval_contextOf`).
-/

set_option autoImplicit false

namespace FlowGate

open OrderedMap

/-- What a reference stands for in a scope: the value that it finds, and `undefined` if it finds
none or asks for a key of a value without keys. -/
def referenceValue (scope : Scope) (name : String) : Value :=
  match resolve? name scope with
  | .ok (some value) => value
  | .ok none => .undefined
  | .error _ => .undefined

/-- The values of listed attributes in a scope. Other names are undefined. -/
def attributeValues (attributes : List String) (scope : Scope) (name : String) : Value :=
  if name ∈ attributes then referenceValue scope name else .undefined

/-! ### Contexts -/

/-- A reported reference stands for what the reference stands for. -/
theorem value_resolveOrReport (name : String) (scope : Scope) :
    (resolveOrReport name scope).value.getD .undefined = referenceValue scope name := by
  unfold resolveOrReport referenceValue
  cases resolve? name scope with
  | error cause => rfl
  | ok value => cases value <;> rfl

/-- Adding an attribute gives it the value of its reference unless it has a value already. -/
theorem get?_addToContext (scope : Scope) (values : OrderedMap String Value)
    (added name : String) :
    Entries.get? name (addToContext scope values added).value =
      (Entries.get? name values).or
        (if name = added then some (referenceValue scope name) else none) := by
  unfold addToContext contains
  by_cases hname : name = added
  · subst hname
    cases hold : Entries.get? name values with
    | some old => simp [hold]
    | none => simp [value_resolveOrReport]
  · cases hold : Entries.get? added values with
    | some old => simp [hname]
    | none => simp [hname]

/-- Adding attributes one after another gives each the value of its reference and leaves the values
that were there. -/
theorem get?_foldlM_addToContext (attributes : List String) (scope : Scope)
    (values : OrderedMap String Value) (name : String) :
    Entries.get? name (attributes.foldlM (addToContext scope) values).value =
      (Entries.get? name values).or
        (if name ∈ attributes then some (referenceValue scope name) else none) := by
  induction attributes generalizing values with
  | nil => simp
  | cons added rest ih =>
    rw [List.foldlM_cons, Logged.value_bind, ih, get?_addToContext, Option.or_assoc]
    by_cases hname : name = added
    · simp [hname]
    · simp [hname]

/-- A context holds the listed attributes, each with the value of its reference. -/
theorem get?_contextOf (attributes : List String) (scope : Scope) (name : String) :
    Entries.get? name (contextOf attributes scope).value =
      if name ∈ attributes then some (referenceValue scope name) else none := by
  rw [contextOf, get?_foldlM_addToContext, get?_empty, Option.none_or]

/-- What an expression sees of a context are the values of the listed attributes. -/
theorem environment_contextOf (attributes : List String) (scope : Scope) :
    environment (contextOf attributes scope).value = attributeValues attributes scope := by
  funext name
  rw [environment, get?_contextOf, attributeValues]
  split <;> rfl

/-! ### Expressions in contexts -/

/-- An expression has the same value wherever the names that it looks up have. -/
theorem Expr.eval_congr {env other : String → Value} {expr : Expr}
    (h : ∀ name ∈ expr.lookups, env name = other name) : expr.eval env = expr.eval other := by
  induction expr with
  | literal value => rfl
  | lookup name => exact congrArg Except.ok (h name (List.mem_singleton_self name))
  | index target key ihtarget ihkey =>
    rw [Expr.eval, Expr.eval, ihtarget fun name hname ↦ h name (List.mem_append_left _ hname),
      ihkey fun name hname ↦ h name (List.mem_append_right _ hname)]
  | unary op operand ih => rw [Expr.eval, Expr.eval, ih h]
  | binary op left right ihleft ihright =>
    have hleft := ihleft fun name hname ↦ h name (List.mem_append_left _ hname)
    have hright := ihright fun name hname ↦ h name (List.mem_append_right _ hname)
    cases op <;> simp only [Expr.eval, hleft, hright]

/-- An expression that looks up listed attributes only has the value that it has in the scope. -/
theorem Expr.eval_contextOf {attributes : List String} {expr : Expr}
    (h : ∀ name ∈ expr.lookups, name ∈ attributes) (scope : Scope) :
    expr.eval (environment (contextOf attributes scope).value) =
      expr.eval (referenceValue scope) := by
  rw [environment_contextOf]
  exact eval_congr fun name hname ↦ if_pos (h name hname)

end FlowGate

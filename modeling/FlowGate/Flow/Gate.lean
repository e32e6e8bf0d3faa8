import FlowGate.Flow.Registry

/-!
# Deciding links

A dependency link fires. An expression link fires if its compiled text evaluates to true where each
attribute it refers to has the value that its reference finds in the scope. `tryDecide` gives the
reason why a link cannot be decided, and `decide` reports the reason and lets the link not fire.
-/

set_option autoImplicit false

namespace FlowGate

/-- The value of a reference. One that cannot be followed is reported and is `undefined`, like one
that finds nothing. -/
def resolveOrReport (name : String) (scope : Scope) : Logged (Option Value) :=
  match resolve? name scope with
  | .ok value => pure value
  | .error cause => do
    Logged.emit (.mismatch cause)
    pure none

/-- Adds the value of an attribute to a context unless it is there. -/
def addToContext (scope : Scope) (values : OrderedMap String Value) (name : String) :
    Logged (OrderedMap String Value) :=
  if OrderedMap.contains values name then pure values
  else do
    let value ← resolveOrReport name scope
    pure (values.insert name (value.getD .undefined))

/-- The values of attributes by their names. An attribute that is named twice is resolved once. -/
def contextOf (attributes : List String) (scope : Scope) : Logged (OrderedMap String Value) :=
  attributes.foldlM (addToContext scope) OrderedMap.empty

/-- What an expression sees of a context. -/
def environment (values : OrderedMap String Value) (name : String) : Value :=
  (values.get? name).getD .undefined

namespace Registry

/-- What the value of a guard says about its link. -/
def verdict (id : UInt32) (result : Except EvalError Value) : Except DecisionError Bool :=
  match result with
  | .error cause => .error (.evaluation id cause)
  | .ok value =>
    match value.asBool? with
    | some fires => .ok fires
    | none => .error (.notBoolean id value.kind)

/-- Whether a link fires, or why that is not known. -/
def tryDecide (registry : Registry) (scope : Scope) (link : Link) :
    Logged (Except DecisionError Bool) :=
  match link.type with
  | .dependency => pure (.ok true)
  | .expression =>
    match OrderedMap.Entries.get? link.id registry with
    | none => pure (.error (.missingEntry link.id link.text))
    | some entry => do
      let values ← contextOf entry.attributes scope
      Logged.emit (.context link.id values)
      pure (verdict link.id (entry.expr.eval (environment values)))

/-- Whether a link is known to fire. -/
def decide (registry : Registry) (scope : Scope) (link : Link) : Logged Bool := do
  match ← registry.tryDecide scope link with
  | .ok fires => pure fires
  | .error cause =>
    Logged.emit (.undecided cause)
    pure false

/-- The decisions of links in order, each with the identity of its link. -/
def decideAll (registry : Registry) (scope : Scope) (links : List Link) :
    Logged (List (UInt32 × Bool)) :=
  links.mapM fun link ↦ do
    let fires ← registry.decide scope link
    pure (link.id, fires)

end Registry

end FlowGate

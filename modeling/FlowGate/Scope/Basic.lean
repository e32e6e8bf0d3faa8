import FlowGate.Value.Json

/-!
# Scopes

A scope says which value an attribute has during a run, if any. `RunScope` is a scope in layers: its
own values, and below them the values of the scopes it was derived from, which it never changes. The
topmost layer that holds an attribute answers for it.
-/

set_option autoImplicit false

namespace FlowGate

/-- What a run sees of its attributes. -/
abbrev Scope : Type :=
  String → Option Value

/-- Values in layers: the own ones, and those inherited, the nearest first. -/
structure RunScope where
  own : OrderedMap String Value
  inherited : List (OrderedMap String Value)

namespace RunScope

def empty : RunScope :=
  ⟨OrderedMap.empty, []⟩

/-- An empty scope over a frozen copy of another. -/
def child (parent : RunScope) : RunScope :=
  ⟨OrderedMap.empty, parent.own :: parent.inherited⟩

/-- The value of an attribute in the topmost layer that holds it. -/
def get? (scope : RunScope) : Scope :=
  fun name ↦ (scope.own :: scope.inherited).findSome? fun layer ↦ layer.get? name

/-- Gives an attribute a value in this scope. -/
def set (scope : RunScope) (name : String) (value : Value) : RunScope :=
  { scope with own := scope.own.insert name value }

/-- Takes an attribute out of this scope, which uncovers what is inherited. -/
def remove (scope : RunScope) (name : String) : RunScope :=
  { scope with own := scope.own.erase String.lt_trans name }

/-- The names that this scope itself gives a value to. -/
def names (scope : RunScope) : List String :=
  scope.own.keys

/-- All layers in one map, upper values covering lower ones. -/
def flatten (scope : RunScope) : OrderedMap String Value :=
  (scope.inherited.foldr (fun layer below ↦ below.overlay layer) OrderedMap.empty).overlay scope.own

/-- The attributes that the scope sees, as a JSON object. -/
def toJson (scope : RunScope) : Json :=
  (Value.mapping scope.flatten).toJson

end RunScope

end FlowGate

import FlowGate.Scope.Basic
import FlowGate.Value.Token

/-!
# Resolving references

A reference is an attribute, or an attribute and one key divided by the first point of the name. An
attribute is found as the scope holds it. A value found under a key is read as a number if it is a
token, and nothing is found under a key of what is undefined; any other value without keys is a
mismatch.
-/

set_option autoImplicit false

namespace FlowGate

/-- The attribute of a reference and the key in it, if there is one. -/
def splitPath (name : String) : String × Option String :=
  let head := name.toList.takeWhile (· ≠ '.')
  match (name.toList.dropWhile (· ≠ '.')).drop 1 with
  | [] => (String.ofList head, none)
  | path => (String.ofList head, some (String.ofList path))

/-- A key was asked of a value that has none. -/
structure PathMismatch where
  reference : String
  path : String
  found : Kind
  deriving DecidableEq

def PathMismatch.message (mismatch : PathMismatch) : String :=
  "attribute '" ++ mismatch.reference ++ "': cannot read path '" ++ mismatch.path ++ "' from " ++
    mismatch.found.name

/-- The value that a reference finds in a scope, if any. -/
def resolve? (name : String) (scope : Scope) : Except PathMismatch (Option Value) :=
  let (head, path) := splitPath name
  match scope head, path with
  | none, _ => .ok none
  | some value, none => .ok (some value)
  | some (.mapping entries), some key => .ok ((entries.get? key).map Value.normalize)
  | some .undefined, some _ => .ok none
  | some value, some key => .error ⟨name, key, value.kind⟩

end FlowGate

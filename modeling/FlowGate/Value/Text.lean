import FlowGate.Number.Layout
import FlowGate.Text.Quoted
import FlowGate.Value.Basic

/-!
# Values as text

Two forms: `display` is what a value looks like in an expression, and `describe` also names what
kind of value each part is, as the contexts in diagnostics show it.
-/

set_option autoImplicit false

namespace FlowGate.Value

open OrderedMap

/-- Parts of a mapping between braces, with commas between them. -/
def braced (parts : List String) : String :=
  "\x7b" ++ String.intercalate ", " parts ++ "\x7d"

mutual

/-- A value as it would be written: strings quoted, numbers and tokens plain. -/
def display : Value → String
  | bool b => if b then "true" else "false"
  | int n => toString n.toInt
  | float x => Layout.plain.render x
  | string s => Text.quote s
  | token text => text
  | mapping entries => braced (displayEntries entries)
  | undefined => "undefined"

def displayEntries {low : Option String} : Entries String Value low → List String
  | .nil => []
  | .cons key _ value rest => (Text.quote key ++ ": " ++ value.display) :: displayEntries rest

end

mutual

/-- A value with the kind of each of its parts. -/
def describe : Value → String
  | bool b => "Bool(" ++ (if b then "true" else "false") ++ ")"
  | int n => "Int(" ++ toString n.toInt ++ ")"
  | float x => "Float(" ++ Layout.marked.render x ++ ")"
  | string s => "String(" ++ Text.quote s ++ ")"
  | token text => "Token(" ++ Text.quote text ++ ")"
  | mapping entries => "Mapping(" ++ braced (describeEntries entries) ++ ")"
  | undefined => "Undefined"

def describeEntries {low : Option String} : Entries String Value low → List String
  | .nil => []
  | .cons key _ value rest => (Text.quote key ++ ": " ++ value.describe) :: describeEntries rest

end

end FlowGate.Value

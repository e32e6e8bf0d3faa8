import FlowGate.Flow.Event
import FlowGate.Yaml.Visit

/-!
# Flows as documents

A flow is a YAML mapping with a `name` and optional `description`, `nodes` and `links`. A node has
an `id`, a link an `id`, the nodes it comes `from` and goes `to`, a `type` and a `value`. Other
fields are ignored, and no field may come twice.
-/

set_option autoImplicit false

namespace FlowGate

open Yaml

/-- The link type of this name. -/
def LinkType.ofName? (text : String) : Option LinkType :=
  if text = "dependency" || text = "unconditional" then some .dependency
  else if text = "expression" || text = "conditional" then some .expression
  else none

/-- The link type that a scalar names, by its content or by a local tag on a null. -/
def LinkType.ofNode (node : Node) : Visit LinkType := do
  match ← node.target with
  | .scalar style tag content =>
    Visit.ofOption <|
      match tag.bind Tag.name? with
      | some name =>
        if style = .plain && (content = "" || isNull content) then ofName? name else none
      | none => ofName? content
  | _ => failure

/-- An identity that fits 32 bits. -/
def linkId (node : Node) : Visit UInt32 := do
  let n ← node.natural
  if n < UInt32.size then pure (UInt32.ofNat n) else failure

/-- A field that may not be left out. -/
def requiredField {α : Type} (fields : List (String × Node)) (key : String)
    (visit : Node → Visit α) : Visit α := do
  Visit.ofOption (← Node.field fields key visit)

def FlowNode.ofNode (node : Node) : Visit FlowNode := do
  let fields ← node.fields
  let id ← requiredField fields "id" Node.text
  let description ← Node.field fields "description" Node.text
  return ⟨id, description.getD ""⟩

def Link.ofNode (node : Node) : Visit Link := do
  let fields ← node.fields
  let id ← requiredField fields "id" linkId
  let source ← requiredField fields "from" Node.text
  let target ← requiredField fields "to" Node.text
  let type ← Node.field fields "type" LinkType.ofNode
  let value ← Node.field fields "value" Node.optionalText
  return ⟨id, source, target, type.getD .dependency, value.join⟩

/-- The elements of a list. -/
def listOf {α : Type} (visit : Node → Visit α) (node : Node) : Visit (List α) := do
  (← node.items).mapM visit

def Flow.ofNode (node : Node) : Visit Flow := do
  let fields ← node.fields
  let name ← requiredField fields "name" Node.text
  let description ← Node.field fields "description" Node.text
  let nodes ← Node.field fields "nodes" (listOf FlowNode.ofNode)
  let links ← Node.field fields "links" (listOf Link.ofNode)
  return ⟨name, description.getD "", nodes.getD [], links.getD []⟩

/-- Why no flow can be loaded: the text is no description of a flow, or the flow has a defect. -/
inductive LoadError where
  | malformed
  | invalid (defect : FlowDefect)
  deriving DecidableEq

namespace Flow

/-- Reads and validates a flow, and reports one that is accepted. -/
def loading (text : String) : Logged (Except LoadError Flow) :=
  match (Document.read? text).join.bind (Document.visit? · Flow.ofNode) with
  | none => pure (.error .malformed)
  | some flow =>
    match flow.validate with
    | .error defect => pure (.error (.invalid defect))
    | .ok () => do
      Logged.emit (.loaded flow.name flow.nodes.length flow.links.length)
      pure (.ok flow)

/-- The flow that a text describes, whatever is reported. -/
def load (text : String) : Except LoadError Flow :=
  (loading text).value

/-- What is reported is the flow, and only if it is accepted. -/
theorem events_loading (text : String) :
    (loading text).events =
      match load text with
      | .ok flow => [.loaded flow.name flow.nodes.length flow.links.length]
      | .error _ => [] := by
  unfold load loading
  cases (Document.read? text).join.bind (Document.visit? · Flow.ofNode) with
  | none => rfl
  | some flow => cases hvalid : flow.validate <;> simp [hvalid]

end Flow

end FlowGate

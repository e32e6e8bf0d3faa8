import FlowGate.Expr.Parser
import FlowGate.Flow.Event
import FlowGate.Reference
import FlowGate.Text.Blank

/-!
# Registries

A registry holds the compiled texts of expression links by the identity of the link. Dependency
links and blank texts need no entry, and a text that does not compile is reported and gets none.
Where links share an identity, the last one that compiles is kept.
-/

set_option autoImplicit false

namespace FlowGate

/-- A compiled link text: the attributes it refers to in order of appearance, the text with its
references replaced, and its tree. -/
structure Registry.Entry where
  attributes : List String
  source : String
  expr : Expr

/-- The compiled texts of links. -/
abbrev Registry : Type :=
  OrderedMap UInt32 Registry.Entry

namespace Link

/-- Whether the link fires by its text: an expression link with a text that is not blank. -/
def isGuarded (link : Link) : Bool :=
  link.type = .expression && !link.text.toList.all Text.isBlank

/-- Compiles the text of a link. A link that is not guarded has no entry. -/
def compile (link : Link) : Logged (Except CompileFailure (Option Registry.Entry)) :=
  if link.isGuarded then do
    let linkText := translate link.text
    Logged.emit (.rewritten link.id linkText.rewritten)
    match Expr.compile linkText.rewritten with
    | .ok expr => pure (.ok (some ⟨linkText.attributes, linkText.rewritten, expr⟩))
    | .error cause => pure (.error ⟨link.id, link.text, cause⟩)
  else
    pure (.ok none)

end Link

namespace Registry

/-- Enters one more link. -/
def enter (registry : Registry) (link : Link) : Logged Registry := do
  match ← link.compile with
  | .error failure =>
    Logged.emit (.notCompiled failure)
    pure registry
  | .ok none => pure registry
  | .ok (some entry) =>
    if OrderedMap.contains registry link.id then
      Logged.emit (.repeated link.id)
    pure (OrderedMap.insert registry link.id entry)

/-- The registry of a list of links. -/
def build (links : List Link) : Logged Registry :=
  links.foldlM enter OrderedMap.empty

end Registry

end FlowGate

import FlowGate.Yaml.Literal
import FlowGate.Yaml.Reader

/-!
# Visits of documents

A document is visited from its root on. Where a visit comes to an alias it goes on at the node that
the alias stands for (`Node.target`). It may do so a hundred times as often as the document is large
and not more, which keeps a small document from standing for a huge one.

Where a text is wanted, any scalar is taken by its content; where a list is wanted, nothing at all
stands for the empty one. An optional text is absent if the scalar is null.
-/

set_option autoImplicit false

namespace FlowGate.Yaml

/-- A visit knows the nodes with anchors and how many more aliases it may follow. -/
abbrev Visit : Type → Type :=
  ReaderT (List (Nat × Node)) (StateT Nat Option)

namespace Visit

/-- Gives the result up if there is none. -/
def ofOption {α : Type} : Option α → Visit α
  | some a => pure a
  | none => failure

/-- The node that the anchor of this number is on. -/
def follow (anchor : Nat) : Visit Node := do
  match ← get with
  | 0 => failure
  | left + 1 =>
    set left
    ofOption ((← read).lookup anchor)

end Visit

/-- What a visit of the whole document gives. -/
def Document.visit? {α : Type} (document : Document) (visit : Node → Visit α) : Option α :=
  ((visit document.root).run document.anchored).run' (100 * document.root.size)

namespace Node

/-- The node itself, or the one that it is an alias of. -/
def target : Node → Visit Node
  | aliased anchor => Visit.follow anchor
  | node => pure node

/-- The content of a scalar, whatever its style and tag. -/
def text (node : Node) : Visit String := do
  match ← node.target with
  | scalar _ _ content => pure content
  | _ => failure

/-- The items of a sequence. A blank is an empty one. -/
def items (node : Node) : Visit (List Node) := do
  match ← node.target with
  | sequence _ items => pure items
  | scalar .plain _ "" => pure []
  | _ => failure

/-- The keys, as texts, and values of a mapping. A blank is an empty one. -/
def fields (node : Node) : Visit (List (String × Node)) := do
  match ← node.target with
  | mapping _ entries => entries.mapM fun (key, value) ↦ do return (← key.text, value)
  | scalar .plain _ "" => pure []
  | _ => failure

/-- Whether a plain scalar is null, by its tag or, without one, by its content; `none` if the tag
says so and the content does not. -/
def isNullScalar? (tag : Option Tag) (content : String) : Option Bool :=
  match tag with
  | none => some (content = "" || isNull content)
  | some tag =>
    if tag ≠ Tag.core "null" then some false
    else if isNull content then some true
    else none

/-- A text that may be absent. -/
def optionalText (node : Node) : Visit (Option String) := do
  match ← node.target with
  | scalar .plain tag content =>
    let absent ← Visit.ofOption (isNullScalar? tag content)
    pure (if absent then none else some content)
  | scalar _ _ content => pure (some content)
  | _ => failure

/-- An integer without a minus, in a plain scalar or in a literal block tagged as one. -/
def natural (node : Node) : Visit Nat := do
  match ← node.target with
  | scalar style tag content =>
    if style = .plain || (style = .literal && tag = some (Tag.core "int")) then
      match readInteger? content.toList with
      | some ⟨false, magnitude⟩ => pure magnitude
      | _ => failure
    else
      failure
  | _ => failure

/-- The only value among the fields with a key. A key that comes again is refused, and so is a value
that is not of the type asked for. -/
def field {α : Type} (fields : List (String × Node)) (key : String) (visit : Node → Visit α) :
    Visit (Option α) :=
  match fields.filter (·.1 == key) with
  | [] => pure none
  | [(_, node)] => some <$> visit node
  | _ => failure

end Node

end FlowGate.Yaml

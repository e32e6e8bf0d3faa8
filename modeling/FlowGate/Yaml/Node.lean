import FlowGate.Yaml.Scalar
import FlowGate.Yaml.Tag

/-!
# Documents of YAML

A document is a tree of nodes in which an alias stands for a node with an anchor. Anchors go by
numbers, and a number stands for the last node in the document that it was given to, so an alias may
point ahead, or at a node around itself.
-/

set_option autoImplicit false

namespace FlowGate.Yaml

inductive Node where
  | scalar (style : Style) (tag : Option Tag) (content : String)
  | sequence (tag : Option Tag) (items : List Node)
  | mapping (tag : Option Tag) (entries : List (Node × Node))
  /-- The node that the anchor of this number is on. -/
  | aliased (anchor : Nat)

/-- An empty plain scalar, which stands where a node is missing. -/
def Node.blank : Node :=
  .scalar .plain none ""

mutual

/-- The size of a node as it is written: the scalars and aliases in it, and the start and end of
each collection. -/
def Node.size : Node → Nat
  | .scalar .. | .aliased _ => 1
  | .sequence _ items => Node.itemSizes items + 2
  | .mapping _ entries => Node.entrySizes entries + 2

def Node.itemSizes : List Node → Nat
  | [] => 0
  | item :: rest => item.size + Node.itemSizes rest

def Node.entrySizes : List (Node × Node) → Nat
  | [] => 0
  | (key, value) :: rest => key.size + value.size + Node.entrySizes rest

end

/-- A document: its root and the nodes with anchors, by number. Of equal numbers the first counts.
-/
structure Document where
  root : Node
  anchored : List (Nat × Node)

end FlowGate.Yaml

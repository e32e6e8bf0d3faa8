/-!
# Flows

A flow is a graph of nodes joined by directed links. A dependency link always fires; an expression
link fires if its text evaluates to true. A flow is valid if no two nodes and no two links share
an identity and every link joins declared nodes; `validate` names the first defect.
-/

set_option autoImplicit false

namespace FlowGate

/-- How a link decides whether it fires. -/
inductive LinkType where
  | dependency
  | expression
  deriving DecidableEq

def LinkType.name : LinkType → String
  | dependency => "dependency"
  | expression => "expression"

/-- A directed link between two nodes, and the text that guards it. -/
structure Link where
  id : UInt32
  source : String
  target : String
  type : LinkType
  value : Option String
  deriving DecidableEq

/-- The text of a link, empty if it has none. -/
def Link.text (link : Link) : String :=
  link.value.getD ""

structure FlowNode where
  id : String
  description : String
  deriving DecidableEq

structure Flow where
  name : String
  description : String
  nodes : List FlowNode
  links : List Link
  deriving DecidableEq

/-- What makes a flow invalid. -/
inductive FlowDefect where
  | duplicateNode (id : String)
  | duplicateLink (id : UInt32)
  | unknownNode (link : UInt32) (node : String)
  deriving DecidableEq

/-- The number of a link in decimal. -/
def linkNumber (id : UInt32) : String :=
  toString id.toNat

def FlowDefect.message : FlowDefect → String
  | duplicateNode id => "duplicate node id: " ++ id
  | duplicateLink id => "duplicate link id: " ++ linkNumber id
  | unknownNode link node =>
    "link " ++ linkNumber link ++ " references unknown node '" ++ node ++ "'"

namespace Flow

/-- The links that an expression guards. -/
def expressionLinks (flow : Flow) : List Link :=
  flow.links.filter fun link ↦ link.type = .expression

/-- The links that leave a node, in the order of the flow. -/
def outgoing (flow : Flow) (node : String) : List Link :=
  flow.links.filter fun link ↦ link.source = node

/-- The first link of an identity. -/
def link? (flow : Flow) (id : UInt32) : Option Link :=
  flow.links.find? fun link ↦ link.id = id

def nodeIds (flow : Flow) : List String :=
  flow.nodes.map FlowNode.id

def hasNode (flow : Flow) (id : String) : Bool :=
  flow.nodeIds.contains id

/-- The first element that has come before. -/
def firstRepeated? {α : Type} [DecidableEq α] (seen : List α) : List α → Option α
  | [] => none
  | a :: rest => if a ∈ seen then some a else firstRepeated? (a :: seen) rest

/-- What is wrong with a link that comes after links of the identities `seen`. -/
def linkDefect? (declared : List String) (seen : List UInt32) (link : Link) : Option FlowDefect :=
  if link.id ∈ seen then some (.duplicateLink link.id)
  else if link.source ∉ declared then some (.unknownNode link.id link.source)
  else if link.target ∉ declared then some (.unknownNode link.id link.target)
  else none

/-- The first defect among links. -/
def firstLinkDefect? (declared : List String) (seen : List UInt32) : List Link → Option FlowDefect
  | [] => none
  | link :: rest =>
    (linkDefect? declared seen link).or (firstLinkDefect? declared (link.id :: seen) rest)

/-- The first defect of a flow: a node that comes again, or else the first defect of a link. -/
def defect? (flow : Flow) : Option FlowDefect :=
  ((firstRepeated? [] flow.nodeIds).map FlowDefect.duplicateNode).or
    (firstLinkDefect? flow.nodeIds [] flow.links)

/-- Accepts a flow without defects. -/
def validate (flow : Flow) : Except FlowDefect Unit :=
  match flow.defect? with
  | some defect => .error defect
  | none => .ok ()

end Flow

end FlowGate

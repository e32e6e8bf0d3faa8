import FlowGate.Command.Arguments
import FlowGate.Flow.Document
import FlowGate.Flow.Walk
import FlowGate.Scope.Document

/-!
# What commands print

A command prints lines, or with `--json` a report of the decisions and of everything that compiling
and deciding reported. It prints nothing if it fails: if a file is missing, describes no flow or
schema, or declares a value that does not fit its type, or if a walk starts outside of the flow.
-/

set_option autoImplicit false

namespace FlowGate.Command

/-- Lines, each with its end. -/
def lines (texts : List String) : String :=
  String.join (texts.map (· ++ "\n"))

def linkTextLines (linkText : LinkText) : List String :=
  ["Attributes: [" ++ String.intercalate ", " (linkText.attributes.map Text.quote) ++ "]",
    "Rewritten: " ++ linkText.rewritten]

/-- What a link does, as a line. -/
def decisionLine (link : Link) (fires : Bool) : String :=
  "link " ++ linkNumber link.id ++ " " ++ link.source ++ " -> " ++ link.target ++ ": " ++
    (if fires then "fires" else "held")

/-- What a link does, as an entry of a report. -/
def decisionJson (link : Link) (fires : Bool) : Json :=
  .object (OrderedMap.ofList [
    ("id", .number (.ofInt64 (Int64.ofNat link.id.toNat))),
    ("from", .string link.source),
    ("to", .string link.target),
    ("type", .string link.type.name),
    ("value", (link.value.map Json.string).getD .null),
    ("fires", .bool fires)])

def eventJson (event : Event) : Json :=
  .object (OrderedMap.ofList [
    ("level", .string event.level.name),
    ("message", .string event.message)])

/-- The links of a flow with their decisions. -/
def decisions (flow : Flow) (scope : Scope) : Logged (List (Link × Bool)) := do
  let registry ← Registry.build flow.links
  flow.links.mapM fun link ↦ do
    let fires ← registry.decide scope link
    pure (link, fires)

/-- The report of a flow with its decisions and events. -/
def report (flow : Flow) (decided : Logged (List (Link × Bool))) : Json :=
  .object (OrderedMap.ofList [
    ("flow", .string flow.name),
    ("links", .array (decided.value.map fun (link, fires) ↦ decisionJson link fires)),
    ("diagnostics", .array (decided.events.map eventJson))])

/-- The flow and the starting scope that two texts describe. -/
def inputs? (flowText scopeText : String) : Option (Flow × RunScope) := do
  let flow ← (Flow.load flowText).toOption
  let schema ← Schema.read? scopeText
  let scope ← (RunScope.ofSchema? schema).toOption
  some (flow, scope)

/-- What a command prints where `contents` are the texts of files. -/
def output? (contents : String → Option String) : Command → Option String
  | translate text => some (lines (linkTextLines (FlowGate.translate text)))
  | eval flowPath scopePath json => do
    let (flow, scope) ← inputs? (← contents flowPath) (← contents scopePath)
    let decided := decisions flow scope.get?
    if json then
      some (lines [(report flow decided).pretty])
    else
      some (lines (decided.value.map fun (link, fires) ↦ decisionLine link fires))
  | walk flowPath scopePath start => do
    let (flow, scope) ← inputs? (← contents flowPath) (← contents scopePath)
    if flow.hasNode start then
      let registry := (Registry.build flow.links).value
      let nodes := (FlowGate.walk registry scope.get? flow start).value
      some (lines ["Reached: " ++ String.intercalate " -> " nodes])
    else
      none

/-- How a command line ends: with a code, zero if it succeeds, and what it prints. -/
structure Outcome where
  code : UInt32
  output : String
  deriving DecidableEq

/-- Runs a command line: words that name no command give two, a command that fails gives one. -/
def run (contents : String → Option String) (words : List String) : Outcome :=
  match read? words with
  | none => ⟨2, ""⟩
  | some command =>
    match command.output? contents with
    | none => ⟨1, ""⟩
    | some text => ⟨0, text⟩

end FlowGate.Command

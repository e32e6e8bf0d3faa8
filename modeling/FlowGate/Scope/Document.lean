import FlowGate.Scope.Schema
import FlowGate.Yaml.Datum

/-!
# Schemas as documents

A schema is a YAML mapping from the names of attributes to their declarations. A declaration is a
mapping with a `type`, which is `any` unless it is given, and a `value`, or a sequence of the two.
Fields may also be given by their number, and other fields are ignored.
-/

set_option autoImplicit false

namespace FlowGate

open Yaml

/-- The type that a datum names: by its name, or as the one key of a mapping to null, which may also
be the number of the type. -/
def AttributeType.ofDatum? : Datum → Option AttributeType
  | .string text => ofName? text
  | .mapping [(.string text, .null)] => ofName? text
  | .mapping [(.natural n, .null)] => all[n]?
  | _ => none

namespace Declaration

/-- The fields of a declaration. -/
inductive Field where
  | type
  | value
  | other
  deriving DecidableEq

/-- The field that a key stands for. -/
def Field.ofKey? : Datum → Option Field
  | .string "type" => some type
  | .string "value" => some value
  | .string _ => some other
  | .natural 0 => some type
  | .natural 1 => some value
  | .natural _ => some other
  | _ => none

/-- The value of a declaration. Null is none. -/
def valueOf? : Datum → Option (Option Json)
  | .null => some none
  | datum => datum.json?.map some

/-- A declaration of these two data, if they are given. -/
def ofData? (type value : Option Datum) : Option Declaration := do
  let type ← type.elim (some AttributeType.any) AttributeType.ofDatum?
  let value ← value.elim (some none) valueOf?
  some ⟨type, value⟩

/-- The data of a field among the entries of a mapping, if it is given no more than once. -/
def fieldOf? (entries : List (Field × Datum)) (field : Field) : Option (Option Datum) :=
  match entries.filter (·.1 == field) with
  | [] => some none
  | [(_, datum)] => some (some datum)
  | _ => none

/-- The declaration that a datum describes. -/
def ofDatum? : Datum → Option Declaration
  | .mapping entries => do
    let entries ← entries.mapM fun (key, datum) ↦ (Field.ofKey? key).map fun field ↦ (field, datum)
    let type ← fieldOf? entries .type
    let value ← fieldOf? entries .value
    ofData? type value
  | .sequence [] => ofData? none none
  | .sequence [type] => ofData? (some type) none
  | .sequence [type, value] => ofData? (some type) (some value)
  | _ => none

end Declaration

/-- The schema that a node describes. Of equal names the last counts. -/
def Schema.ofNode (node : Node) : Visit Schema := do
  let declarations ← (← node.fields).mapM fun (name, node) ↦ do
    let datum ← node.datum (nestingLimit - 1)
    return (name, ← Visit.ofOption (Declaration.ofDatum? datum))
  return OrderedMap.ofList declarations

/-- Reads a schema. A text without a document is the empty schema. -/
def Schema.read? (text : String) : Option Schema := do
  match ← Document.read? text with
  | none => some OrderedMap.empty
  | some document => document.visit? Schema.ofNode

end FlowGate

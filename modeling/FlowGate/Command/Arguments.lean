/-!
# Command lines

The three commands and the options that each takes. An option with a value is written as
`--name=value`, `-nvalue` or `-n=value`, or with the value as the next word, which then does not
start with a hyphen unless it is the hyphen alone. No option is given twice, none is left out that
is required, and nothing but options follows the name of a command.
-/

set_option autoImplicit false

namespace FlowGate

inductive Command where
  /-- Shows how a link text is rewritten. -/
  | translate (text : String)
  /-- Decides every link of a flow, as lines or as a JSON report. -/
  | eval (flow scope : String) (json : Bool)
  /-- Lists the nodes that are reached from a start. -/
  | walk (flow scope start : String)
  deriving DecidableEq

namespace Command

/-- An option that a command knows. A switch has no value. -/
structure CommandOption where
  name : String
  letter : Option Char
  isSwitch : Bool

/-- An option with the name `name`, and a value that may be attached to it. -/
abbrev Occurrence : Type :=
  CommandOption × Option (List Char)

/-- What is attached after an equals sign, if anything is. -/
def attached? : List Char → Option (List Char)
  | '=' :: value => some value
  | _ => none

/-- The option that a word stands for. -/
def occurrence? (known : List CommandOption) (word : List Char) : Option Occurrence :=
  match word with
  | '-' :: '-' :: rest =>
    let name := String.ofList (rest.takeWhile (· ≠ '='))
    (known.find? fun option ↦ option.name = name).map fun option ↦
      (option, attached? (rest.dropWhile (· ≠ '=')))
  | '-' :: letter :: rest =>
    (known.find? fun option ↦ option.letter = some letter).map fun option ↦
      (option, if rest.isEmpty then none else some ((attached? rest).getD rest))
  | _ => none

/-- Whether a word can be the separate value of an option. -/
def isValue (word : String) : Bool :=
  match word.toList with
  | '-' :: _ :: _ => false
  | _ => true

/-- The options given by the words after the name of a command, with their values; a switch has an
empty one. Two hyphens may end the words. -/
def given? (known : List CommandOption) : List String → Option (List (String × String))
  | [] => some []
  | ["--"] => some []
  | word :: rest =>
    match occurrence? known word.toList with
    | none => none
    | some (option, attached) =>
      match option.isSwitch, attached, rest with
      | true, none, rest => (given? known rest).map ((option.name, "") :: ·)
      | false, some value, rest =>
        (given? known rest).map ((option.name, String.ofList value) :: ·)
      | false, none, value :: rest =>
        if isValue value then (given? known rest).map ((option.name, value) :: ·) else none
      | _, _, _ => none

/-- The options given, each no more than once. -/
def options? (known : List CommandOption) (words : List String) :
    Option (List (String × String)) :=
  match given? known words with
  | some options => if (options.map Prod.fst).Nodup then some options else none
  | none => none

def exprOption : CommandOption :=
  ⟨"expr", some 'e', false⟩

def flowOption : CommandOption :=
  ⟨"flow", some 'f', false⟩

def scopeOption : CommandOption :=
  ⟨"scope", some 's', false⟩

def jsonSwitch : CommandOption :=
  ⟨"json", none, true⟩

def startOption : CommandOption :=
  ⟨"from", none, false⟩

/-- The command that the words of a command line name. -/
def read? : List String → Option Command
  | "translate" :: words => do
    let options ← options? [exprOption] words
    let text ← options.lookup "expr"
    some (translate text)
  | "eval" :: words => do
    let options ← options? [flowOption, scopeOption, jsonSwitch] words
    let flow ← options.lookup "flow"
    let scope ← options.lookup "scope"
    some (eval flow scope (options.lookup "json").isSome)
  | "walk" :: words => do
    let options ← options? [flowOption, scopeOption, startOption] words
    let flow ← options.lookup "flow"
    let scope ← options.lookup "scope"
    let start ← options.lookup "from"
    some (walk flow scope start)
  | _ => none

/-- The files that a command reads. -/
def paths : Command → List String
  | translate _ => []
  | eval flow scope _ => [flow, scope]
  | walk flow scope _ => [flow, scope]

end Command

end FlowGate

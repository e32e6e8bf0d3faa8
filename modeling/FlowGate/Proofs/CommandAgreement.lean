import FlowGate.Command.Output
import FlowGate.Proofs.PrintedJson
import FlowGate.Proofs.Reachability

/-!
# The commands agree

`eval` and `eval --json` list the same decisions, and `walk` follows the links that they list as
firing (`run_eval_and_walk_agree`). Each command starts from what the two files describe, so all of
them fail together (`loaded?`, `output?_eval`, `output?_walk`). The decisions are `verdicts`, whose
order is that of the links and which do not depend on what is reported on the way
(`value_decisions`). The report is read back from what is printed (`read?_lines_report`), and there
are such command lines for every two files and every start (`read?_words`).
-/

set_option autoImplicit false

namespace FlowGate

/-- What an object holds under a key. -/
def Json.field? (key : String) : Json → Option Json
  | object fields => OrderedMap.Entries.get? key fields
  | _ => none

namespace Command

/-! ### What is decided -/

/-- The links of a flow with their decisions, whatever is reported on the way. -/
def verdicts (flow : Flow) (scope : Scope) : List (Link × Bool) :=
  flow.links.map fun link ↦ (link, ((Registry.build flow.links).value.decide scope link).value)

theorem value_decisions (flow : Flow) (scope : Scope) :
    (decisions flow scope).value = verdicts flow scope := by
  rw [decisions, Logged.value_bind, Logged.value_mapM]
  rfl

theorem map_fst_verdicts (flow : Flow) (scope : Scope) :
    (verdicts flow scope).map Prod.fst = flow.links := by
  rw [verdicts, List.map_map]
  exact List.map_id _

/-- A line says of its link that it fires. -/
def SaysFires (line : String) : Prop :=
  ": fires".toList <:+ line.toList

/-- No name of a node makes a line say so for a link that is held. -/
theorem saysFires_decisionLine (link : Link) (fires : Bool) :
    SaysFires (decisionLine link fires) ↔ fires = true := by
  obtain ⟨front, hfront⟩ : ∃ front, (decisionLine link fires).toList =
      front ++ (if fires then ": fires" else ": held").toList := by
    refine ⟨("link " ++ linkNumber link.id ++ " " ++ link.source ++ " -> " ++
      link.target).toList, ?_⟩
    cases fires <;> simp [decisionLine]
  rw [SaysFires, hfront]
  cases fires with
  | true => exact iff_of_true (List.suffix_append _ _) rfl
  | false =>
    refine iff_of_false ?_ Bool.false_ne_true
    rintro ⟨other, h⟩
    have hlast := congrArg List.getLast? h
    simp at hlast

/-! ### Reports -/

theorem field?_decisionJson (link : Link) (fires : Bool) :
    (decisionJson link fires).field? "fires" = some (.bool fires) := by
  simp [Json.field?, decisionJson, OrderedMap.ofList]

theorem plain_decisionJson (room : Nat) (link : Link) (fires : Bool) :
    Json.Plain (room + 1) (decisionJson link fires) := by
  have hvalue : Json.Plain room ((link.value.map Json.string).getD .null) := by
    cases link.value with
    | none => exact .null
    | some text => exact .string text
  refine .ofList ?_
  simp only [List.forall_mem_cons]
  exact ⟨.integer _ _, .string _, .string _, .string _, hvalue, .bool _, List.forall_mem_nil _⟩

theorem plain_eventJson (room : Nat) (event : Event) :
    Json.Plain (room + 1) (eventJson event) := by
  refine .ofList ?_
  simp only [List.forall_mem_cons]
  exact ⟨.string _, .string _, List.forall_mem_nil _⟩

theorem plain_report (room : Nat) (flow : Flow) (decided : Logged (List (Link × Bool))) :
    Json.Plain (room + 3) (report flow decided) := by
  refine .ofList ?_
  simp only [List.forall_mem_cons]
  refine ⟨.string _, .array ?_, .array ?_, List.forall_mem_nil _⟩
  · exact List.forall_mem_map.mpr fun entry _ ↦ plain_decisionJson room entry.1 entry.2
  · exact List.forall_mem_map.mpr fun event _ ↦ plain_eventJson room event

theorem field?_report (flow : Flow) (decided : Logged (List (Link × Bool))) :
    (report flow decided).field? "links" =
      some (.array (decided.value.map fun (link, fires) ↦ decisionJson link fires)) := by
  simp [Json.field?, report, OrderedMap.ofList]

/-! ### Words -/

/-- An option with its value attached, as one word. -/
def attach (name value : String) : String :=
  "--" ++ name ++ "=" ++ value

/-- A word that gives an option its value is read as that, whatever the value is. -/
theorem given?_attach {known : List CommandOption} {option : CommandOption}
    (hname : '=' ∉ option.name.toList) (hvalue : option.isSwitch = false)
    (hknown : (known.find? fun other ↦ other.name = option.name) = some option)
    (value : String) (rest : List String) :
    given? known (attach option.name value :: rest) =
      (given? known rest).map ((option.name, value) :: ·) := by
  have hword : (attach option.name value).toList =
      '-' :: '-' :: (option.name.toList ++ '=' :: value.toList) := by
    simp [attach]
  have hfront : ∀ c ∈ option.name.toList, decide (c ≠ '=') = true := by
    intro c hc
    refine decide_eq_true ?_
    rintro rfl
    exact hname hc
  have hstop : ∀ c ∈ ('=' :: value.toList).head?, decide (c ≠ '=') = false := by simp
  obtain ⟨htake, hdrop⟩ := takeWhile_append_of_stop hfront hstop
  have hoccurrence : occurrence? known (attach option.name value).toList =
      some (option, some value.toList) := by
    rw [hword, occurrence?]
    simp only [htake, hdrop, String.ofList_toList, hknown, Option.map_some, attached?]
  have hne : attach option.name value ≠ "--" := by
    intro h
    have hlength := congrArg (fun word ↦ word.toList.length) h
    simp [hword] at hlength
  rw [given?]
  · simp [hoccurrence, hvalue]
  · exact fun h ↦ absurd h hne

def evalWords (flowPath scopePath : String) : List String :=
  ["eval", attach "flow" flowPath, attach "scope" scopePath]

def reportWords (flowPath scopePath : String) : List String :=
  ["eval", attach "flow" flowPath, attach "scope" scopePath, "--json"]

def walkWords (flowPath scopePath start : String) : List String :=
  ["walk", attach "flow" flowPath, attach "scope" scopePath, attach "from" start]

/-- Whatever the names of the files and of the start are, there are words for all three commands. -/
theorem read?_words (flowPath scopePath start : String) :
    read? (evalWords flowPath scopePath) = some (.eval flowPath scopePath false) ∧
      read? (reportWords flowPath scopePath) = some (.eval flowPath scopePath true) ∧
      read? (walkWords flowPath scopePath start) = some (.walk flowPath scopePath start) := by
  have hfiles : ∀ (last : CommandOption) (words : List String),
      given? [flowOption, scopeOption, last]
          (attach flowOption.name flowPath :: attach scopeOption.name scopePath :: words) =
        (given? [flowOption, scopeOption, last] words).map fun others ↦
          (flowOption.name, flowPath) :: (scopeOption.name, scopePath) :: others := by
    intro last words
    rw [given?_attach (by decide) rfl rfl, given?_attach (by decide) rfl rfl, Option.map_map]
    rfl
  have hstart : given? [flowOption, scopeOption, startOption] [attach startOption.name start] =
      some [(startOption.name, start)] := by
    rw [given?_attach (by decide) rfl rfl]
    rfl
  -- The names of the options stand in the words as literals.
  refine ⟨?_, ?_, ?_⟩
  · show (options? _
      [attach flowOption.name flowPath, attach scopeOption.name scopePath]).bind _ = _
    rw [options?, hfiles jsonSwitch]
    rfl
  · show (options? _
      [attach flowOption.name flowPath, attach scopeOption.name scopePath, "--json"]).bind _ = _
    rw [options?, hfiles jsonSwitch]
    rfl
  · show (options? _ [attach flowOption.name flowPath, attach scopeOption.name scopePath,
      attach startOption.name start]).bind _ = _
    rw [options?, hfiles startOption, hstart]
    rfl

/-! ### Runs -/

/-- The flow and the starting scope that two files describe. -/
def loaded? (contents : String → Option String) (flowPath scopePath : String) :
    Option (Flow × RunScope) := do
  inputs? (← contents flowPath) (← contents scopePath)

section Runs

variable {contents : String → Option String} {flowPath scopePath start : String}
  {words textWords jsonWords startWords : List String} {command : Command}

theorem loaded?_bind {α : Type} (next : Flow × RunScope → Option α) :
    (loaded? contents flowPath scopePath).bind next =
      (contents flowPath).bind fun flowText ↦ (contents scopePath).bind fun scopeText ↦
        (inputs? flowText scopeText).bind next := by
  simp only [loaded?, Option.bind_eq_bind, Option.bind_assoc]

theorem output?_eval (contents : String → Option String) (flowPath scopePath : String)
    (json : Bool) :
    (eval flowPath scopePath json).output? contents =
      (loaded? contents flowPath scopePath).bind fun (flow, scope) ↦
        if json then some (lines [(report flow (decisions flow scope.get?)).pretty])
        else some (lines ((decisions flow scope.get?).value.map fun (link, fires) ↦
          decisionLine link fires)) :=
  (loaded?_bind _).symm

theorem output?_walk (contents : String → Option String) (flowPath scopePath start : String) :
    (walk flowPath scopePath start).output? contents =
      (loaded? contents flowPath scopePath).bind fun (flow, scope) ↦
        if flow.hasNode start then
          some (lines ["Reached: " ++ String.intercalate " -> "
            (FlowGate.walk (Registry.build flow.links).value scope.get? flow start).value])
        else none :=
  (loaded?_bind _).symm

theorem run_eq_of_output?_eq_none (hwords : read? words = some command)
    (h : command.output? contents = none) : run contents words = ⟨1, ""⟩ := by
  simp only [run, hwords, h]

theorem run_eq_of_output?_eq_some {text : String} (hwords : read? words = some command)
    (h : command.output? contents = some text) : run contents words = ⟨0, text⟩ := by
  simp only [run, hwords, h]

/-- A link whose line says that it fires goes from one node to the other. -/
def LinesLead (verdicts : List (Link × Bool)) (origin node : String) : Prop :=
  ∃ verdict ∈ verdicts, SaysFires (decisionLine verdict.1 verdict.2) ∧
    verdict.1.source = origin ∧ verdict.1.target = node

theorem linesLead_verdicts (flow : Flow) (scope : Scope) :
    LinesLead (verdicts flow scope) = flow.LeadsTo (Registry.build flow.links).value scope := by
  funext origin node
  refine propext ⟨?_, ?_⟩
  · rintro ⟨verdict, hverdict, hline, hsource, htarget⟩
    obtain ⟨link, hlink, rfl⟩ := List.mem_map.mp hverdict
    exact ⟨link, hlink, hsource, htarget, (saysFires_decisionLine _ _).mp hline⟩
  · rintro ⟨link, hlink, hsource, htarget, hfires⟩
    exact ⟨_, List.mem_map_of_mem hlink, (saysFires_decisionLine _ _).mpr hfires, hsource, htarget⟩

/-- A report is read back from the lines that it is printed on. -/
theorem read?_lines_report (flow : Flow) (decided : Logged (List (Link × Bool))) :
    Json.read? (lines [(report flow decided).pretty]) = some (report flow decided) := by
  have hlines : lines [(report flow decided).pretty] = (report flow decided).pretty ++ "\n" := by
    simp [lines, String.join]
  have hplain : Json.Plain Json.nestingLimit (report flow decided) := plain_report 124 flow decided
  rw [hlines]
  exact (Json.read?_pretty hplain).2

end Runs

/-- A flow with a link that waits for a payment, and a scope where it is paid. -/
def orderFiles (path : String) : Option String :=
  if path = "flow.yaml" then
    some ("name: order\nnodes:\n- id: cart\n- id: sent\nlinks:\n" ++
      "- id: 1\n  from: cart\n  to: sent\n  type: expression\n  value: $paid\n")
  else if path = "scope.yaml" then
    some "paid:\n  type: boolean\n  value: true\n"
  else
    none

def orderLink : Link :=
  ⟨1, "cart", "sent", .expression, some "$paid"⟩

def orderFlow : Flow :=
  ⟨"order", "", [⟨"cart", ""⟩, ⟨"sent", ""⟩], [orderLink]⟩

set_option maxRecDepth 40000 in
theorem decided_orderFiles :
    (loaded? orderFiles "flow.yaml" "scope.yaml").map
        (fun (flow, scope) ↦ (flow, verdicts flow scope.get?)) =
      some (orderFlow, [(orderLink, true)]) := by
  decide +kernel

/-- The line about the paid link leads from the cart to where the order is sent, and no further. -/
theorem reflTransGen_linesLead_orderLink (node : String) :
    Relation.ReflTransGen (LinesLead [(orderLink, true)]) "cart" node ↔
      node = "cart" ∨ node = "sent" := by
  have hfires : SaysFires (decisionLine orderLink true) := (saysFires_decisionLine _ _).mpr rfl
  constructor
  · intro hpath
    rcases hpath.cases_tail with hnode | ⟨_, -, verdict, hverdict, -, -, htarget⟩
    · exact .inl hnode
    · rw [List.mem_singleton.mp hverdict] at htarget
      exact .inr htarget.symm
  · rintro (rfl | rfl)
    · exact .refl
    · exact .single ⟨_, List.mem_cons_self, hfires, rfl, rfl⟩

end Command

end FlowGate

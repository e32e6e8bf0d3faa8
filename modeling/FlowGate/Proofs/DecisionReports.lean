import FlowGate.Flow.Session
import FlowGate.Proofs.AttributeContext
import Mathlib.Data.List.Induction

/-!
# What decisions report

A gate that decides a link reports which references of the link cannot be followed, then the context
of the evaluation, and last why the link is undecided, if it is. Each of these is reported where it
comes up: a reference when it is added to the context, which a repeated one is not
(`events_contextOf`), and the error by `decide` around `tryDecide` (`decide_eq`).

`Session.Yields` says what a step answers and which lines it leaves in the sink. A sink with the
threshold `trace` keeps all lines (`yields_of_recording`), so there the lines of a step are the
events of its decision (`yields_decisions`). A line about a context may list its entries in any
order (`Session.IsContextLine`).
-/

set_option autoImplicit false

namespace FlowGate

open OrderedMap

/-- Why a reference cannot be followed in a scope, if it cannot. -/
def mismatch? (scope : Scope) (name : String) : Option PathMismatch :=
  match resolve? name scope with
  | .ok _ => none
  | .error cause => some cause

/-- The mismatches of attributes, each attribute taken once and where it stands first. -/
def mismatches (attributes : List String) (scope : Scope) : List PathMismatch :=
  attributes.eraseDups.filterMap (mismatch? scope)

/-! ### Contexts -/

theorem events_resolveOrReport (name : String) (scope : Scope) :
    (resolveOrReport name scope).events = (mismatch? scope name).toList.map .mismatch := by
  unfold resolveOrReport mismatch?
  cases resolve? name scope <;> rfl

/-- Adding an attribute reports its mismatch unless the attribute is there. -/
theorem events_addToContext (scope : Scope) (values : OrderedMap String Value) (name : String) :
    (addToContext scope values name).events =
      if OrderedMap.contains values name then []
      else (mismatch? scope name).toList.map .mismatch := by
  unfold addToContext
  split
  · rfl
  · rw [Logged.events_bind, events_resolveOrReport, Logged.events_pure, List.append_nil]

theorem contextOf_concat (attributes : List String) (name : String) (scope : Scope) :
    contextOf (attributes ++ [name]) scope =
      contextOf attributes scope >>= fun values ↦ addToContext scope values name := by
  rw [contextOf, List.foldlM_append]
  simp [contextOf]

/-- The keys of a context are the attributes. -/
theorem contains_contextOf_iff (attributes : List String) (scope : Scope) (name : String) :
    OrderedMap.contains (contextOf attributes scope).value name = true ↔ name ∈ attributes := by
  rw [OrderedMap.contains, get?_contextOf]
  split <;> simp [*]

/-- One more attribute has one more mismatch if it is a new one. -/
theorem mismatches_concat (attributes : List String) (name : String) (scope : Scope) :
    mismatches (attributes ++ [name]) scope =
      mismatches attributes scope ++
        if name ∈ attributes then [] else (mismatch? scope name).toList := by
  rw [mismatches, List.eraseDups_append, List.filterMap_append]
  by_cases hname : name ∈ attributes
  · simp [mismatches, List.removeAll, hname]
  · cases hmismatch : mismatch? scope name <;>
      simp [mismatches, List.removeAll, List.eraseDups_cons, hname, hmismatch]

/-- A context reports the mismatches of its attributes. The attributes are taken from the front, so
the induction puts one more at the end. -/
theorem events_contextOf (attributes : List String) (scope : Scope) :
    (contextOf attributes scope).events = (mismatches attributes scope).map .mismatch := by
  induction attributes using List.reverseRecOn with
  | nil => rfl
  | append_singleton attributes name ih =>
    have hcontains := contains_contextOf_iff attributes scope name
    rw [contextOf_concat, Logged.events_bind, ih, events_addToContext, mismatches_concat,
      List.map_append]
    by_cases hname : name ∈ attributes
    · rw [if_pos hname, if_pos (hcontains.mpr hname), List.map_nil]
    · rw [if_neg hname, if_neg (mt hcontains.mp hname)]

/-! ### Decisions -/

namespace Registry

variable {registry : Registry} {scope : Scope} {link : Link}

theorem tryDecide_dependency (htype : link.type = .dependency) :
    registry.tryDecide scope link = pure (.ok true) := by
  rw [tryDecide, htype]

theorem tryDecide_missing (htype : link.type = .expression)
    (hentry : Entries.get? link.id registry = none) :
    registry.tryDecide scope link = pure (.error (.missingEntry link.id link.text)) := by
  simp only [tryDecide, htype, hentry]

theorem tryDecide_entry {entry : Entry} (htype : link.type = .expression)
    (hentry : Entries.get? link.id registry = some entry) :
    registry.tryDecide scope link =
      ⟨verdict link.id (entry.expr.eval (environment (contextOf entry.attributes scope).value)),
        (mismatches entry.attributes scope).map .mismatch ++
          [.context link.id (contextOf entry.attributes scope).value]⟩ := by
  simp only [tryDecide, htype, hentry]
  refine Logged.ext rfl ?_
  rw [Logged.events_bind, events_contextOf]
  rfl

/-- A decision is an attempt, and where that fails the error is reported and the link held. -/
theorem decide_eq (registry : Registry) (scope : Scope) (link : Link) :
    registry.decide scope link =
      match (registry.tryDecide scope link).value with
      | .ok fires => ⟨fires, (registry.tryDecide scope link).events⟩
      | .error cause => ⟨false, (registry.tryDecide scope link).events ++ [.undecided cause]⟩ := by
  unfold decide
  generalize registry.tryDecide scope link = attempt
  obtain ⟨result, events⟩ := attempt
  cases result with
  | ok fires => exact Logged.ext rfl (List.append_nil _)
  | error cause => rfl

theorem value_decideAll (registry : Registry) (scope : Scope) (links : List Link) :
    (registry.decideAll scope links).value =
      links.map fun link ↦ (link.id, (registry.decide scope link).value) := by
  rw [decideAll, Logged.value_mapM]
  rfl

theorem events_decideAll (registry : Registry) (scope : Scope) (links : List Link) :
    (registry.decideAll scope links).events =
      links.flatMap fun link ↦ (registry.decide scope link).events := by
  rw [decideAll, Logged.events_mapM]
  simp

end Registry

/-! ### Sinks and sessions -/

/-- An event as it is read in a sink: its level and its message. -/
def Event.line (event : Event) : Level × String :=
  (event.level, event.message)

/-- What is read in a sink, oldest first. -/
def Sink.lines (sink : Sink) : List (Level × String) :=
  sink.entries.map Event.line

/-- Nothing is too little severe for the threshold `trace`. -/
theorem Level.within_trace (level : Level) : level.within (some .trace) = true := by
  cases level <;> rfl

theorem Sink.lines_record {sink : Sink} (h : sink.threshold = some .trace) (events : List Event) :
    (sink.record events).lines = sink.lines ++ events.map Event.line := by
  have hadmits : ∀ event ∈ events, sink.admits event = true := by
    intro event _
    rw [admits, h, Level.within_trace]
  rw [lines, entries_record, List.filter_eq_self.mpr hadmits, List.map_append]
  rfl

namespace Session

/-- The answer of a step, and the lines that it leaves in the sink behind those that were there. -/
structure Yields (session : Session) (step : Step) (answer : Answer)
    (lines : List (Level × String)) : Prop where
  answer_eq : (session.perform step).value.1 = answer
  lines_eq : (session.perform step).value.2.sink.lines = session.sink.lines ++ lines

/-- A step yields one answer and one list of lines. -/
theorem Yields.unique {session : Session} {step : Step} {answer other : Answer}
    {lines others : List (Level × String)} (h : session.Yields step answer lines)
    (hother : session.Yields step other others) : answer = other ∧ lines = others := by
  refine ⟨h.answer_eq.symm.trans hother.answer_eq, ?_⟩
  exact List.append_cancel_left (h.lines_eq.symm.trans hother.lines_eq)

/-- How a reference that cannot be followed reads in a sink. -/
def mismatchLine (cause : PathMismatch) : Level × String :=
  (.warn, cause.message ++ "; treating it as undefined")

/-- The line reads as the context does, with its entries between the braces in some order. -/
def IsContextLine (id : UInt32) (values : OrderedMap String Value) (line : Level × String) : Prop :=
  ∃ parts : List String, parts.Perm (Value.describeEntries values) ∧
    line = (.debug, Event.contextHeading id ++ " " ++ Value.braced parts)

theorem isContextLine_line (id : UInt32) (values : OrderedMap String Value) :
    IsContextLine id values (Event.context id values).line :=
  ⟨Value.describeEntries values, .refl _, rfl⟩

section Yields

variable {session : Session} (hsink : session.sink.threshold = some .trace)

include hsink

theorem yields_of_recording (step : Step) {activity : Logged Answer}
    (hstep : session.perform step = session.recording activity) :
    session.Yields step activity.value (activity.events.map Event.line) := by
  constructor
  · rw [hstep]
    rfl
  · rw [hstep]
    exact Sink.lines_record hsink activity.events

theorem yields_tryDecide (link : Link) :
    session.Yields (.tryDecide link)
      (.attempt (session.registry.tryDecide session.scope.get? link).value)
      ((session.registry.tryDecide session.scope.get? link).events.map Event.line) := by
  have h := yields_of_recording hsink (.tryDecide link) rfl
  rwa [Logged.value_map, Logged.events_map] at h

theorem yields_decide (link : Link) :
    session.Yields (.decide link)
      (.decision (session.registry.decide session.scope.get? link).value)
      ((session.registry.decide session.scope.get? link).events.map Event.line) := by
  have h := yields_of_recording hsink (.decide link) rfl
  rwa [Logged.value_map, Logged.events_map] at h

/-- Where there is an entry, an attempt yields the mismatches of its attributes and the context. -/
theorem exists_yields_tryDecide {link : Link} {entry : Registry.Entry}
    (htype : link.type = .expression)
    (hentry : Entries.get? link.id session.registry = some entry) :
    ∃ values line, (∀ name, name ∈ OrderedMap.keys values ↔ name ∈ entry.attributes) ∧
      (∀ name ∈ entry.attributes,
        Entries.get? name values = some (referenceValue session.scope.get? name)) ∧
      IsContextLine link.id values line ∧
      session.Yields (.tryDecide link)
        (.attempt (Registry.verdict link.id (entry.expr.eval (environment values))))
        ((mismatches entry.attributes session.scope.get?).map mismatchLine ++ [line]) := by
  refine ⟨(contextOf entry.attributes session.scope.get?).value, _, fun name ↦ ?_,
    fun name hname ↦ ?_, isContextLine_line _ _, ?_⟩
  · rw [OrderedMap.mem_keys_iff, contains_contextOf_iff]
  · rw [get?_contextOf, if_pos hname]
  · have h := yields_tryDecide hsink link
    rw [Registry.tryDecide_entry htype hentry, List.map_append, List.map_map] at h
    exact h

/-- A decision yields what an attempt that succeeds does. -/
theorem yields_decide_of_ok {link : Link} {fires : Bool} {lines : List (Level × String)}
    (h : session.Yields (.tryDecide link) (.attempt (.ok fires)) lines) :
    session.Yields (.decide link) (.decision fires) lines := by
  obtain ⟨hanswer, rfl⟩ := h.unique (yields_tryDecide hsink link)
  have hattempt := Answer.attempt.inj hanswer
  have hdecide := yields_decide hsink link
  rw [Registry.decide_eq, ← hattempt] at hdecide
  exact hdecide

/-- A decision yields what an attempt that fails does, and the reason as one line more. -/
theorem yields_decide_of_error {link : Link} {cause : DecisionError}
    {lines : List (Level × String)}
    (h : session.Yields (.tryDecide link) (.attempt (.error cause)) lines) :
    session.Yields (.decide link) (.decision false) (lines ++ [(.warn, cause.message)]) := by
  obtain ⟨hanswer, rfl⟩ := h.unique (yields_tryDecide hsink link)
  have hattempt := Answer.attempt.inj hanswer
  have hdecide := yields_decide hsink link
  rw [Registry.decide_eq, ← hattempt] at hdecide
  dsimp only at hdecide
  rw [List.map_append] at hdecide
  exact hdecide

/-- Deciding links one after another yields what deciding each of them does. -/
theorem yields_decideEach {links : List Link} {fires : Link → Bool}
    {lines : Link → List (Level × String)}
    (h : ∀ link ∈ links, session.Yields (.decide link) (.decision (fires link)) (lines link)) :
    session.Yields (.decideEach links)
      (.decisions (links.map fun link : Link ↦ (link.id, fires link))) (links.flatMap lines) := by
  have hlink : ∀ link ∈ links,
      (session.registry.decide session.scope.get? link).value = fires link ∧
        (session.registry.decide session.scope.get? link).events.map Event.line = lines link := by
    intro link hmem
    obtain ⟨hanswer, hlines⟩ := (yields_decide hsink link).unique (h link hmem)
    exact ⟨Answer.decision.inj hanswer, hlines⟩
  have hfires : links.map (fun link ↦ (link.id, fires link)) =
      (session.registry.decideAll session.scope.get? links).value := by
    rw [Registry.value_decideAll]
    refine List.map_congr_left fun link hmem ↦ ?_
    rw [(hlink link hmem).1]
  have hlines : links.flatMap lines =
      (session.registry.decideAll session.scope.get? links).events.map Event.line := by
    rw [Registry.events_decideAll, List.map_flatMap, List.flatMap_def, List.flatMap_def]
    refine congrArg List.flatten (List.map_congr_left fun link hmem ↦ ?_)
    rw [(hlink link hmem).2]
  have hall := yields_of_recording hsink (.decideEach links) rfl
  rw [Logged.value_map, Logged.events_map] at hall
  rw [hfires, hlines]
  exact hall

end Yields

/-- A link that asks twice for a key, with a comparison that `undefined` does not admit. -/
def statusLink : Link :=
  ⟨1, "open", "done", .expression, some "$status.code > 1 || $status.code == null"⟩

def statusEntry : Registry.Entry :=
  ⟨["status.code", "status.code"],
    "lookup(\"status.code\") > 1 || lookup(\"status.code\") == null",
    .binary .or (.binary .greater (.lookup "status.code") (.literal (.int 1)))
      (.binary .equal (.lookup "status.code") (.literal .undefined))⟩

/-- The attribute is a string, which has no keys. -/
def statusSession : Session :=
  ⟨OrderedMap.ofList [(1, statusEntry)], [statusLink], RunScope.empty.set "status" (.string "done"),
    Sink.opened (some .trace)⟩

end Session

end FlowGate

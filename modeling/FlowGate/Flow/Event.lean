import FlowGate.Expr.CompileError
import FlowGate.Expr.Eval
import FlowGate.Flow.Basic
import FlowGate.Scope.Resolve
import FlowGate.Value.Text

/-!
# Events of a run

What loading, compiling, deciding and walking report, each with its level and its wording. `Logged`
is a result together with the events on the way to it; `value_bind` and `events_bind` say that
doing one thing after another joins their events in order.
-/

set_option autoImplicit false

namespace FlowGate

/-- How severe an event is. -/
inductive Level where
  | error
  | warn
  | info
  | debug
  | trace
  deriving DecidableEq

namespace Level

def name : Level → String
  | error => "ERROR"
  | warn => "WARN"
  | info => "INFO"
  | debug => "DEBUG"
  | trace => "TRACE"

/-- The distance from the most severe level. -/
def rank : Level → Nat
  | error => 0
  | warn => 1
  | info => 2
  | debug => 3
  | trace => 4

end Level

/-- The text of a link is no expression. -/
structure CompileFailure where
  link : UInt32
  text : String
  cause : CompileError

def CompileFailure.message (failure : CompileFailure) : String :=
  "link " ++ linkNumber failure.link ++ ": expression '" ++ failure.text ++
    "' failed to compile: " ++ failure.cause.message

/-- Why a link is neither known to fire nor known not to. -/
inductive DecisionError where
  | missingEntry (link : UInt32) (text : String)
  | evaluation (link : UInt32) (cause : EvalError)
  | notBoolean (link : UInt32) (found : Kind)
  deriving DecidableEq

def DecisionError.message : DecisionError → String
  | missingEntry link text =>
    "link " ++ linkNumber link ++ ": no compiled expression for '" ++ text ++ "'"
  | evaluation link cause => "link " ++ linkNumber link ++ ": evaluation failed: " ++ cause.message
  | notBoolean link found =>
    "link " ++ linkNumber link ++ ": expression produced " ++ found.name ++ ", expected a boolean"

/-- Something that a run reports. -/
inductive Event where
  /-- A flow was read and is valid. -/
  | loaded (flow : String) (nodes links : Nat)
  /-- The text of a link after its references were replaced. -/
  | rewritten (link : UInt32) (text : String)
  /-- A link was left out because its text does not compile. -/
  | notCompiled (failure : CompileFailure)
  /-- A compiled link took the place of an earlier one of its identity. -/
  | repeated (link : UInt32)
  /-- A reference asked for a key of a value without keys. -/
  | mismatch (cause : PathMismatch)
  /-- The values under which the expression of a link is evaluated. -/
  | context (link : UInt32) (values : OrderedMap String Value)
  /-- A link could not be decided and does not fire. -/
  | undecided (cause : DecisionError)
  /-- A walk followed a link. -/
  | fired (link : Link)
  /-- A walk met a link that does not fire. -/
  | held (link : Link)
  /-- A walk was to start outside of its flow. -/
  | unknownStart (start flow : String)

namespace Event

def level : Event → Level
  | notCompiled _ => .error
  | repeated _ | mismatch _ | undecided _ | unknownStart .. => .warn
  | loaded .. | rewritten .. | context .. | fired _ | held _ => .debug

/-- How the message of a context starts. -/
def contextHeading (link : UInt32) : String :=
  "link " ++ linkNumber link ++ ": context:"

/-- A link with its ends, and what became of it. -/
def passage (link : Link) (outcome : String) : String :=
  "Link " ++ linkNumber link.id ++ " " ++ outcome ++ ": " ++ link.source ++ " -> " ++ link.target

def message : Event → String
  | loaded flow nodes links =>
    "Loaded flow '" ++ flow ++ "': " ++ toString nodes ++ " nodes, " ++ toString links ++ " links"
  | rewritten link text => "link " ++ linkNumber link ++ ": expr: " ++ text
  | notCompiled failure => failure.message
  | repeated link =>
    "link " ++ linkNumber link ++ " appears more than once; keeping the last expression"
  | mismatch cause => cause.message ++ "; treating it as undefined"
  | context link values =>
    contextHeading link ++ " " ++ Value.braced (Value.describeEntries values)
  | undecided cause => cause.message
  | fired link => passage link "fired"
  | held link => passage link "held"
  | unknownStart start flow =>
    "Walk start node '" ++ start ++ "' is not part of flow '" ++ flow ++ "'"

/-- The values of a context. -/
def context? : Event → Option (OrderedMap String Value)
  | context _ values => some values
  | _ => none

end Event

/-- A result and the events on the way to it, oldest first. -/
structure Logged (α : Type) where
  value : α
  events : List Event

namespace Logged

variable {α β : Type}

instance : Monad Logged where
  pure value := ⟨value, []⟩
  bind first next :=
    let second := next first.value
    ⟨second.value, first.events ++ second.events⟩

/-- Reports an event. -/
def emit (event : Event) : Logged Unit :=
  ⟨(), [event]⟩

@[simp]
theorem value_pure (a : α) : (pure a : Logged α).value = a :=
  rfl

@[simp]
theorem events_pure (a : α) : (pure a : Logged α).events = [] :=
  rfl

@[simp]
theorem value_bind (first : Logged α) (next : α → Logged β) :
    (first >>= next).value = (next first.value).value :=
  rfl

@[simp]
theorem events_bind (first : Logged α) (next : α → Logged β) :
    (first >>= next).events = first.events ++ (next first.value).events :=
  rfl

@[simp]
theorem value_map (f : α → β) (first : Logged α) : (f <$> first).value = f first.value :=
  rfl

@[simp]
theorem events_map (f : α → β) (first : Logged α) : (f <$> first).events = first.events :=
  List.append_nil first.events

@[simp]
theorem events_emit (event : Event) : (emit event).events = [event] :=
  rfl

theorem ext {left right : Logged α} (hvalue : left.value = right.value)
    (hevents : left.events = right.events) : left = right := by
  cases left
  cases right
  simp_all

instance : LawfulMonad Logged :=
  LawfulMonad.mk' Logged (fun _ ↦ ext rfl (List.append_nil _))
    (fun _ _ ↦ ext rfl (List.nil_append _)) (fun _ _ _ ↦ ext rfl (List.append_assoc _ _ _))

theorem value_mapM (f : α → Logged β) (items : List α) :
    (items.mapM f).value = items.map fun item ↦ (f item).value := by
  induction items with
  | nil => rfl
  | cons item rest ih => rw [List.mapM_cons, value_bind, value_bind, value_pure, ih, List.map_cons]

theorem events_mapM (f : α → Logged β) (items : List α) :
    (items.mapM f).events = items.flatMap fun item ↦ (f item).events := by
  induction items with
  | nil => rfl
  | cons item rest ih =>
    rw [List.mapM_cons, events_bind, events_bind, events_pure, List.append_nil, ih,
      List.flatMap_cons]

end Logged

end FlowGate

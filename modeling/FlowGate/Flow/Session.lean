import FlowGate.Flow.Gate
import FlowGate.Flow.Sink

/-!
# Sessions

A session decides links of one registry while the scope of its run changes, and records what is
reported in a sink. `perform` takes one step. Its answer comes with all events of the step, also
those that the sink does not keep.
-/

set_option autoImplicit false

namespace FlowGate

structure Session where
  registry : Registry
  links : List Link
  scope : RunScope
  sink : Sink

namespace Session

inductive Step where
  | decide (link : Link)
  | tryDecide (link : Link)
  /-- Decides links in order, whichever they are. -/
  | decideEach (links : List Link)
  /-- Decides the links that the session was started with. -/
  | decideAll
  | hasEntry (id : UInt32)
  | set (name : String) (value : Value)
  | remove (name : String)
  /-- Goes on in an empty child of the scope. -/
  | descend
  | clear
  | messages (level : Level)

inductive Answer where
  | decision (fires : Bool)
  | attempt (outcome : Except DecisionError Bool)
  | decisions (all : List (UInt32 × Bool))
  | presence (found : Bool)
  | removed (value : Option Value)
  | messages (texts : List String)
  | done

/-- The session over the registry of some links. -/
def start (links : List Link) (scope : RunScope) (threshold : Option Level) : Logged Session :=
  let built := Registry.build links
  ⟨⟨built.value, links, scope, (Sink.opened threshold).record built.events⟩, built.events⟩

/-- Records what an activity reports. -/
def recording (session : Session) (activity : Logged Answer) : Logged (Answer × Session) :=
  ⟨(activity.value, { session with sink := session.sink.record activity.events }),
    activity.events⟩

/-- Takes one step. -/
def perform (session : Session) : Step → Logged (Answer × Session)
  | .decide link =>
    session.recording (.decision <$> session.registry.decide session.scope.get? link)
  | .tryDecide link =>
    session.recording (.attempt <$> session.registry.tryDecide session.scope.get? link)
  | .decideEach links =>
    session.recording (.decisions <$> session.registry.decideAll session.scope.get? links)
  | .decideAll =>
    session.recording (.decisions <$> session.registry.decideAll session.scope.get? session.links)
  | .hasEntry id => pure (.presence (OrderedMap.contains session.registry id), session)
  | .set name value => pure (.done, { session with scope := session.scope.set name value })
  | .remove name =>
    pure (.removed (OrderedMap.Entries.get? name session.scope.own),
      { session with scope := session.scope.remove name })
  | .descend => pure (.done, { session with scope := session.scope.child })
  | .clear => pure (.done, { session with sink := session.sink.clear })
  | .messages level => pure (.messages (session.sink.messages level), session)

end Session

end FlowGate

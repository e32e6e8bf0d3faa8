import FlowGate.Flow.Event

/-!
# Sinks

A sink keeps the events that are at least as severe as its threshold, oldest first. A sink without
a threshold keeps nothing. Events are handed to a sink one after another, and the level of each is
asked for twice: before it is handed over and by the sink itself. `entries_record` says what is kept
of them in the end.
-/

set_option autoImplicit false

namespace FlowGate

/-- Whether a level is at least as severe as a threshold. -/
def Level.within (level : Level) (threshold : Option Level) : Bool :=
  match threshold with
  | none => false
  | some limit => level.rank ≤ limit.rank

/-- The events recorded under a threshold. -/
@[ext]
structure Sink where
  threshold : Option Level
  entries : List Event

namespace Sink

/-- A sink that has recorded nothing. -/
def opened (threshold : Option Level) : Sink :=
  ⟨threshold, []⟩

def admits (sink : Sink) (event : Event) : Bool :=
  event.level.within sink.threshold

/-- Keeps an event if the threshold admits it. -/
def keep (sink : Sink) (event : Event) : Sink :=
  if sink.admits event then { sink with entries := sink.entries ++ [event] } else sink

/-- Hands an event to a sink that admits events of its level. The sink asks again. -/
def emit (sink : Sink) (event : Event) : Sink :=
  if sink.admits event then sink.keep event else sink

/-- Hands events to a sink in order. -/
def record (sink : Sink) (events : List Event) : Sink :=
  events.foldl emit sink

def clear (sink : Sink) : Sink :=
  { sink with entries := [] }

/-- The messages recorded at exactly one level. -/
def messages (sink : Sink) (level : Level) : List String :=
  (sink.entries.filter fun event ↦ event.level = level).map Event.message

/-- Asking twice is asking once. -/
theorem emit_eq_keep (sink : Sink) (event : Event) : sink.emit event = sink.keep event := by
  unfold emit keep
  split <;> rfl

@[simp]
theorem threshold_emit (sink : Sink) (event : Event) :
    (sink.emit event).threshold = sink.threshold := by
  rw [emit_eq_keep, keep]
  split <;> rfl

theorem entries_emit (sink : Sink) (event : Event) :
    (sink.emit event).entries = sink.entries ++ [event].filter sink.admits := by
  rw [emit_eq_keep, keep]
  by_cases hadmits : sink.admits event = true <;> simp [hadmits]

@[simp]
theorem threshold_record (sink : Sink) (events : List Event) :
    (sink.record events).threshold = sink.threshold := by
  unfold record
  induction events generalizing sink with
  | nil => rfl
  | cons event rest ih => rw [List.foldl_cons, ih, threshold_emit]

/-- Of the events those are kept that the threshold admits. -/
theorem entries_record (sink : Sink) (events : List Event) :
    (sink.record events).entries = sink.entries ++ events.filter sink.admits := by
  unfold record
  induction events generalizing sink with
  | nil => exact (List.append_nil _).symm
  | cons event rest ih =>
    have hadmits : (sink.emit event).admits = sink.admits := by
      funext other
      rw [admits, admits, threshold_emit]
    rw [List.foldl_cons, ih, hadmits, entries_emit, List.append_assoc, ← List.filter_append,
      List.singleton_append]

end Sink

end FlowGate

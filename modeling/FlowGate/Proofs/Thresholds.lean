import FlowGate.Proofs.DecisionReports

/-!
# What a threshold changes

The registry, the references and the gate report to one sink, which is handed their events one after
another. `Session.history` lists the sinks that a run goes through, one for each event and each
step. The last of them is the sink that the run ends with (`Session.getLast?_history`).

`narrow` takes out of a sink what a threshold does not let in. A session with a threshold starts as
the one that keeps everything, narrowed (`start_eq_narrow`). A step of the narrowed session answers
and goes on as the step of the other one does (`perform_narrow`), so a run does too
(`performAll_narrow`), and the sinks of the run are those of the other run, each of them narrowed
(`moments_narrow`). The other run leaves nothing out: a step keeps all that it reports, except that
clearing forgets what was kept before (`entries_perform`).
-/

set_option autoImplicit false

namespace FlowGate

/-- The level is at least as severe as the threshold. Nothing is without a threshold. -/
def Level.AtLeast (level : Level) (threshold : Option Level) : Prop :=
  ∃ limit, threshold = some limit ∧ level.rank ≤ limit.rank

theorem Level.within_iff (level : Level) (threshold : Option Level) :
    level.within threshold = true ↔ level.AtLeast threshold := by
  cases threshold <;> simp [Level.within, Level.AtLeast]

instance (level : Level) (threshold : Option Level) : Decidable (level.AtLeast threshold) :=
  decidable_of_iff _ (level.within_iff threshold)

theorem Level.atLeast_trace (level : Level) : level.AtLeast (some .trace) :=
  (level.within_iff _).mp level.within_trace

/-! ### Sinks, one event after another -/

namespace Sink

/-- The sinks that a sink becomes while events are handed to it, itself first. -/
def stages (sink : Sink) (events : List Event) : List Sink :=
  events.scanl emit sink

/-- The sink of the threshold that has kept what the threshold lets in. -/
def narrow (threshold : Option Level) (sink : Sink) : Sink :=
  ⟨threshold, sink.entries.filter fun event ↦ event.level.AtLeast threshold⟩

theorem admits_iff (sink : Sink) (event : Event) :
    sink.admits event = true ↔ event.level.AtLeast sink.threshold :=
  event.level.within_iff sink.threshold

/-- A sink with the threshold `trace` keeps what it is handed. -/
theorem entries_record_of_trace {sink : Sink} (hsink : sink.threshold = some .trace)
    (events : List Event) : (sink.record events).entries = sink.entries ++ events := by
  have hadmits : ∀ event ∈ events, sink.admits event = true := by
    intro event _
    rw [admits_iff, hsink]
    exact event.level.atLeast_trace
  rw [entries_record, List.filter_eq_self.mpr hadmits]

/-- A narrowed sink keeps of events what is left of them by narrowing. -/
theorem record_narrow {sink : Sink} (hsink : sink.threshold = some .trace)
    (threshold : Option Level) (events : List Event) :
    (sink.narrow threshold).record events = (sink.record events).narrow threshold := by
  have hadmits : (sink.narrow threshold).admits =
      fun event ↦ decide (event.level.AtLeast threshold) := by
    funext event
    rw [Bool.eq_iff_iff, admits_iff, decide_eq_true_iff]
    rfl
  apply Sink.ext
  · rw [threshold_record]
    rfl
  · rw [entries_record, hadmits]
    unfold narrow
    rw [entries_record_of_trace hsink, List.filter_append]

/-- The stages of a narrowed sink are the stages of the sink, narrowed. -/
theorem stages_narrow {sink : Sink} (hsink : sink.threshold = some .trace)
    (threshold : Option Level) (events : List Event) :
    (sink.narrow threshold).stages events = (sink.stages events).map (narrow threshold) := by
  unfold stages
  induction events generalizing sink with
  | nil => rfl
  | cons event rest ih =>
    have hevent : (sink.narrow threshold).emit event = (sink.emit event).narrow threshold :=
      record_narrow hsink threshold [event]
    rw [List.scanl_cons, List.scanl_cons, List.map_cons, hevent,
      ih ((sink.threshold_emit event).trans hsink)]

/-- A narrowed sink has all messages of a level or none. -/
theorem messages_narrow (sink : Sink) (threshold : Option Level) (level : Level) :
    (sink.narrow threshold).messages level =
      if level.AtLeast threshold then sink.messages level else [] := by
  rw [messages, messages, narrow, List.filter_filter]
  split
  · rename_i hlevel
    refine congrArg (List.map Event.message) (List.filter_congr fun event _ ↦ ?_)
    by_cases hevent : event.level = level <;> simp [hevent, hlevel]
  · rename_i hlevel
    refine List.map_eq_nil_iff.mpr (List.filter_eq_nil_iff.mpr fun event _ ↦ ?_)
    by_cases hevent : event.level = level <;> simp [hevent, hlevel]

/-- The messages of a level are the lines of the level. -/
theorem messages_eq_lines (sink : Sink) (level : Level) :
    sink.messages level = (sink.lines.filter fun line ↦ line.1 = level).map Prod.snd := by
  rw [messages, lines, List.filter_map, List.map_map]
  rfl

end Sink

/-! ### Runs -/

namespace Session

/-- Takes steps one after another. -/
def performAll (session : Session) : List Step → Logged (List Answer × Session)
  | [] => pure ([], session)
  | step :: rest => do
    let first ← session.perform step
    let others ← first.2.performAll rest
    pure (first.1 :: others.1, others.2)

/-- The sinks of a session while it takes steps: for each step, what the sink is after each of its
events, and in the end what it is after the last step. -/
def moments (session : Session) : List Step → List Sink
  | [] => [session.sink]
  | step :: rest =>
    session.sink.stages (session.perform step).events ++
      (session.perform step).value.2.moments rest

/-- The sinks of a run, from the first event of the registry on. -/
def history (links : List Link) (scope : RunScope) (threshold : Option Level) (steps : List Step) :
    List Sink :=
  (Sink.opened threshold).stages (Registry.build links).events ++
    (start links scope threshold).value.moments steps

/-- What a step leaves of the entries that were kept before it. -/
def Step.kept (step : Step) (entries : List Event) : List Event :=
  match step with
  | .clear => []
  | _ => entries

/-- What a step answers under a threshold, given its answer where everything is kept. Only the
messages of a level that the threshold does not let in make a difference: there are none. -/
def Step.limited (threshold : Option Level) (step : Step) (answer : Answer) : Answer :=
  match step with
  | .messages level => if level.AtLeast threshold then answer else .messages []
  | _ => answer

/-- The session with the sink narrowed. -/
def narrow (threshold : Option Level) (session : Session) : Session :=
  { session with sink := session.sink.narrow threshold }

/-- A session with a threshold starts as the one that keeps everything, narrowed. -/
theorem start_eq_narrow (links : List Link) (scope : RunScope) (threshold : Option Level) :
    (start links scope threshold).value =
      (start links scope (some .trace)).value.narrow threshold := by
  have hopened : (Sink.opened (some .trace)).threshold = some .trace := rfl
  have hsink := Sink.record_narrow hopened threshold (Registry.build links).events
  simp only [start, narrow, ← hsink]
  rfl

theorem threshold_perform (session : Session) (step : Step) :
    (session.perform step).value.2.sink.threshold = session.sink.threshold := by
  cases step <;> first | rfl | exact Sink.threshold_record _ _

theorem threshold_performAll (session : Session) (steps : List Step) :
    (session.performAll steps).value.2.sink.threshold = session.sink.threshold := by
  induction steps generalizing session with
  | nil => rfl
  | cons step rest ih => exact (ih _).trans (threshold_perform session step)

/-- The last moment of a session is the sink that it ends with. -/
theorem getLast?_moments (session : Session) (steps : List Step) :
    (session.moments steps).getLast? = some (session.performAll steps).value.2.sink := by
  induction steps generalizing session with
  | nil => rfl
  | cons step rest ih =>
    rw [moments, List.getLast?_append, ih, Option.some_or]
    rfl

theorem getLast?_history (links : List Link) (scope : RunScope) (threshold : Option Level)
    (steps : List Step) :
    (history links scope threshold steps).getLast? =
      some ((start links scope threshold).value.performAll steps).value.2.sink := by
  rw [history, List.getLast?_append, getLast?_moments, Option.some_or]

section Narrow

variable {session : Session} (hsink : session.sink.threshold = some .trace)

include hsink

/-- A step of a session that keeps everything leaves all that it reports in the sink. -/
theorem entries_perform (step : Step) :
    (session.perform step).value.2.sink.entries =
      step.kept session.sink.entries ++ (session.perform step).events := by
  have hrecording : ∀ activity : Logged Answer,
      (session.recording activity).value.2.sink.entries =
        session.sink.entries ++ (session.recording activity).events :=
    fun activity ↦ Sink.entries_record_of_trace hsink activity.events
  cases step with
  | decide link => exact hrecording _
  | tryDecide link => exact hrecording _
  | decideEach links => exact hrecording _
  | decideAll => exact hrecording _
  | hasEntry id => exact (List.append_nil _).symm
  | set name value => exact (List.append_nil _).symm
  | remove name => exact (List.append_nil _).symm
  | descend => exact (List.append_nil _).symm
  | clear => rfl
  | messages level => exact (List.append_nil _).symm

/-- A step of a narrowed session answers and goes on as the step of the session does. -/
theorem perform_narrow (threshold : Option Level) (step : Step) :
    (session.narrow threshold).perform step =
      (fun result ↦ (step.limited threshold result.1, result.2.narrow threshold)) <$>
        session.perform step := by
  have hrecording : ∀ activity : Logged Answer,
      (session.narrow threshold).recording activity =
        (fun result ↦ (result.1, result.2.narrow threshold)) <$> session.recording activity := by
    intro activity
    refine Logged.ext ?_ ?_
    · simp [recording, narrow, Sink.record_narrow hsink]
    · simp [recording]
  cases step with
  | decide link => exact hrecording _
  | tryDecide link => exact hrecording _
  | decideEach links => exact hrecording _
  | decideAll => exact hrecording _
  | hasEntry id => rfl
  | set name value => rfl
  | remove name => rfl
  | descend => rfl
  | clear => rfl
  | messages level =>
    refine Logged.ext ?_ rfl
    simp only [perform, Step.limited, narrow, Logged.value_pure, Logged.value_map,
      Sink.messages_narrow]
    split <;> rfl

/-- A run of a narrowed session answers and ends as the run of the session does. -/
theorem performAll_narrow (threshold : Option Level) (steps : List Step) :
    (session.narrow threshold).performAll steps =
      (fun result ↦ (List.zipWith (Step.limited threshold) steps result.1,
        result.2.narrow threshold)) <$> session.performAll steps := by
  induction steps generalizing session with
  | nil => rfl
  | cons step rest ih =>
    have hnext := (threshold_perform session step).trans hsink
    refine Logged.ext ?_ ?_
    · simp [performAll, perform_narrow hsink, ih hnext]
    · simp [performAll, perform_narrow hsink, ih hnext]

/-- The sinks of a narrowed session are those of the session, narrowed. -/
theorem moments_narrow (threshold : Option Level) (steps : List Step) :
    (session.narrow threshold).moments steps =
      (session.moments steps).map (Sink.narrow threshold) := by
  induction steps generalizing session with
  | nil => rfl
  | cons step rest ih =>
    have hnext := (threshold_perform session step).trans hsink
    rw [moments, moments, perform_narrow hsink, List.map_append, ← Sink.stages_narrow hsink,
      ← ih hnext, Logged.events_map, Logged.value_map]
    rfl

end Narrow

/-- The sinks of a run under a threshold are those of the run that keeps everything, narrowed. -/
theorem history_narrow (links : List Link) (scope : RunScope) (threshold : Option Level)
    (steps : List Step) :
    history links scope threshold steps =
      (history links scope (some .trace) steps).map (Sink.narrow threshold) := by
  have hsink : (start links scope (some .trace)).value.sink.threshold = some .trace :=
    Sink.threshold_record _ _
  rw [history, history, start_eq_narrow links scope threshold, moments_narrow hsink,
    List.map_append, ← Sink.stages_narrow rfl]
  rfl

/-- A threshold changes only what is kept. Over the same links and from the same scope, a run under
a threshold has the registry of the run that keeps everything and answers each step in the same
way, but for messages of levels that the threshold does not let in. From the first event of the
registry to the end of the run, its sink has at each moment those entries of the other sink that are
at least as severe as the threshold, in their order, and what it gives out as the messages of a
level are its lines of that level. The other sink leaves nothing out: it starts with the events of
the registry, each further step adds what it reports, and whatever it is handed at any moment of the
run is kept. -/
theorem recorded_within_threshold (links : List Link) (scope : RunScope)
    (threshold : Option Level) (steps : List Step) :
    ((start links scope threshold).value.performAll steps).value.2.registry =
        ((start links scope (some .trace)).value.performAll steps).value.2.registry ∧
      ((start links scope threshold).value.performAll steps).value.1 =
        List.zipWith (Step.limited threshold) steps
          ((start links scope (some .trace)).value.performAll steps).value.1 ∧
      history links scope threshold steps =
        (history links scope (some .trace) steps).map (Sink.narrow threshold) ∧
      (history links scope threshold steps).getLast? =
        some ((start links scope threshold).value.performAll steps).value.2.sink ∧
      (∀ sink ∈ history links scope threshold steps, ∀ level,
        sink.messages level = (sink.lines.filter fun line ↦ line.1 = level).map Prod.snd) ∧
      (start links scope (some .trace)).value.sink.entries = (Registry.build links).events ∧
      (∀ step,
        let session := ((start links scope (some .trace)).value.performAll steps).value.2
        (session.perform step).value.2.sink.entries =
          step.kept session.sink.entries ++ (session.perform step).events) ∧
      ∀ sink ∈ history links scope (some .trace) steps, ∀ events,
        (sink.record events).entries = sink.entries ++ events := by
  have hsink : (start links scope (some .trace)).value.sink.threshold = some .trace :=
    Sink.threshold_record _ _
  have hrun := performAll_narrow hsink threshold steps
  rw [← start_eq_narrow links scope threshold] at hrun
  refine ⟨?_, ?_, history_narrow links scope threshold steps,
    getLast?_history links scope threshold steps, fun sink _ level ↦ sink.messages_eq_lines level,
    Sink.entries_record_of_trace rfl _, fun step ↦ ?_, fun sink hmem events ↦ ?_⟩
  · rw [hrun]
    rfl
  · rw [hrun]
    rfl
  · exact entries_perform ((threshold_performAll _ steps).trans hsink) step
  · rw [history_narrow] at hmem
    obtain ⟨other, -, rfl⟩ := List.mem_map.mp hmem
    exact Sink.entries_record_of_trace rfl events

/-- An expression link without a text. -/
def untexted : Link :=
  ⟨1, "open", "shipped", .expression, none⟩

/-- What a gate reports of the link. -/
def untextedWarning : Event :=
  .undecided (.missingEntry 1 "")

/-- The sink that keeps everything has the warning that the link cannot be decided. The one that
keeps errors only goes through the same moments without it. -/
theorem recorded_within_threshold_untexted :
    ⟨some .trace, [untextedWarning]⟩ ∈
        history [untexted] .empty (some .trace) [.decide untexted, .clear] ∧
      ⟨some .error, []⟩ ∈ history [untexted] .empty (some .error) [.decide untexted, .clear] ∧
      ((start [untexted] .empty (some .error)).value.performAll
        [.decide untexted, .clear]).value.1 = [.decision false, .done] ∧
      Sink.messages ⟨some .error, []⟩ .warn = [] := by
  obtain ⟨-, hanswers, hhistory, -, hmessages, -⟩ :=
    recorded_within_threshold [untexted] .empty (some .error) [.decide untexted, .clear]
  have hstages : ⟨some .trace, [untextedWarning]⟩ ∈
      (Sink.opened (some .trace)).stages [untextedWarning] :=
    List.mem_cons_of_mem _ List.mem_cons_self
  have hwarned : ⟨some .trace, [untextedWarning]⟩ ∈
      history [untexted] .empty (some .trace) [.decide untexted, .clear] :=
    List.mem_append_right _ (List.mem_append_left _ hstages)
  have hnarrowed : ⟨some .error, []⟩ ∈
      history [untexted] .empty (some .error) [.decide untexted, .clear] := by
    rw [hhistory]
    exact List.mem_map_of_mem hwarned
  refine ⟨hwarned, hnarrowed, ?_, ?_⟩
  · rw [hanswers]
    rfl
  · rw [hmessages _ hnarrowed]
    rfl

end Session

end FlowGate

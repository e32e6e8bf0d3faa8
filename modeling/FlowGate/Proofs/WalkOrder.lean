import FlowGate.Proofs.WalkTrials
import Mathlib.Tactic.ByContra

/-!
# The order of a walk

After the start a walk visits the targets of the trials that fire, in the order of the trials. No
link is decided twice (`nodup_position`), and nothing but a trial that fires reports that a link has
fired (`filterMap_fired?_events`). That later nodes are not closer to the start follows from the
order of their trials, each of which is the earliest way to its target (`exists_reachesIn_le`).
-/

set_option autoImplicit false

namespace FlowGate

/-- The link that an event reports to have fired. -/
def Event.fired? : Event → Option Link
  | .fired link => some link
  | _ => none

/-- A path of so many links that fire goes from one node to the other. -/
inductive Flow.ReachesIn (flow : Flow) (registry : Registry) (scope : Scope) (origin : String) :
    Nat → String → Prop where
  | start : ReachesIn flow registry scope origin 0 origin
  | step {n : Nat} {node next : String} : ReachesIn flow registry scope origin n node →
      flow.LeadsTo registry scope node next → ReachesIn flow registry scope origin (n + 1) next

theorem Flow.ReachesIn.reaches {flow : Flow} {registry : Registry} {scope : Scope}
    {origin node : String} {n : Nat} (h : flow.ReachesIn registry scope origin n node) :
    flow.Reaches registry scope origin node := by
  induction h with
  | start => exact .refl
  | step _ hleads ih => exact ih.tail hleads

namespace Walk

variable {registry : Registry} {scope : Scope} {flow : Flow}

/-! ### What trials report -/

/-- Nothing is reported to have fired. -/
def FiresNothing (events : List Event) : Prop :=
  ∀ event ∈ events, event.fired? = none

theorem firesNothing_addToContext (values : OrderedMap String Value) (name : String) :
    FiresNothing (addToContext scope values name).events := by
  unfold addToContext resolveOrReport FiresNothing
  split
  · simp
  · cases resolve? name scope <;> simp [Event.fired?]

theorem firesNothing_contextOf (attributes : List String) :
    FiresNothing (contextOf attributes scope).events := by
  unfold contextOf
  generalize (OrderedMap.empty : OrderedMap String Value) = values
  induction attributes generalizing values with
  | nil => simp [FiresNothing]
  | cons name rest ih =>
    rw [List.foldlM_cons, Logged.events_bind]
    exact List.forall_mem_append.mpr ⟨firesNothing_addToContext values name, ih _⟩

/-- Deciding a link does not report that a link has fired. -/
theorem firesNothing_decide (registry : Registry) (scope : Scope) (link : Link) :
    FiresNothing (registry.decide scope link).events := by
  have hattempt : FiresNothing (registry.tryDecide scope link).events := by
    unfold Registry.tryDecide
    cases link.type with
    | dependency => simp [FiresNothing]
    | expression =>
      cases OrderedMap.Entries.get? link.id registry with
      | none => simp [FiresNothing]
      | some entry =>
        refine List.forall_mem_append.mpr ⟨firesNothing_contextOf entry.attributes, ?_⟩
        simp [Event.fired?]
  rw [Registry.decide, Logged.events_bind]
  refine List.forall_mem_append.mpr ⟨hattempt, ?_⟩
  cases (registry.tryDecide scope link).value <;> simp [Event.fired?]

/-- The links that are reported to have fired are those of the trials that fire. -/
theorem filterMap_fired?_events (trials : List Trial) :
    (trials.flatMap (Trial.events registry scope)).filterMap Event.fired? =
      (trials.filter (Trial.fires registry scope)).map Trial.link := by
  induction trials with
  | nil => rfl
  | cons trial rest ih =>
    have hdecide : (registry.decide scope trial.link).events.filterMap Event.fired? = [] :=
      List.filterMap_eq_nil_iff.mpr (firesNothing_decide registry scope trial.link)
    rw [List.flatMap_cons, List.filterMap_append, ih, Trial.events, List.filterMap_append, hdecide]
    cases hfires : trial.fires registry scope <;> simp [hfires, Event.fired?]

/-! ### Walks -/

section Walks

variable {order : List String} {trials : List Trial}

/-- A list without repetitions has each member at one position. -/
theorem eq_of_getElem?_eq_some {i j : Nat} {node : String} (h : order.Nodup)
    (hi : order[i]? = some node) (hj : order[j]? = some node) : i = j := by
  obtain ⟨hlt, -⟩ := List.getElem?_eq_some_iff.mp hi
  exact (List.getElem?_inj hlt h).mp (hi.trans hj.symm)

/-- Trials of one link would be trials from one node, and so one trial. -/
theorem nodup_position (horder : order.Nodup) (hordered : trials.Pairwise Trial.Before)
    (hearliest : ∀ trial ∈ trials, trial.Earliest registry scope flow order) :
    (trials.map Trial.position).Nodup := by
  refine List.pairwise_map.mpr (hordered.imp_of_mem fun {first second} hfirst hsecond h heq ↦ ?_)
  have hlink : first.link = second.link := by
    have hat := (hearliest first hfirst).link_eq
    rw [heq, (hearliest second hsecond).link_eq] at hat
    exact (Option.some.inj hat).symm
  have horigin : first.origin = second.origin := by
    have hsource := (hearliest first hfirst).source_eq
    rw [hlink] at hsource
    exact eq_of_getElem?_eq_some horder hsource (hearliest second hsecond).source_eq
  rcases h with h | ⟨-, h⟩ <;> omega

/-- Of two trials the one that comes first is made from a node that is visited no later. -/
theorem origin_le_of_le (hordered : trials.Pairwise Trial.Before) {i j : Nat}
    {first second : Trial} (hle : i ≤ j) (hi : trials[i]? = some first)
    (hj : trials[j]? = some second) : first.origin ≤ second.origin := by
  obtain ⟨hilt, rfl⟩ := List.getElem?_eq_some_iff.mp hi
  obtain ⟨hjlt, rfl⟩ := List.getElem?_eq_some_iff.mp hj
  rcases Nat.eq_or_lt_of_le hle with rfl | hlt
  · exact Nat.le_refl _
  · rcases List.pairwise_iff_getElem.mp hordered i j hilt hjlt hlt with h | ⟨h, -⟩ <;> omega

/-- A node that was visited earlier is no farther from the start: the trial that came to it was made
from a node visited no later than the last node on a path to the other one. -/
theorem exists_reachesIn_le {start : String} (horder : order.Nodup)
    (hnodes : order = start :: trials.map fun trial ↦ trial.link.target)
    (hordered : trials.Pairwise Trial.Before)
    (hearliest : ∀ trial ∈ trials, trial.Earliest registry scope flow order)
    (hfires : ∀ trial ∈ trials, trial.fires registry scope = true)
    (hreaches : ∀ node, flow.Reaches registry scope start node → node ∈ order)
    {i j : Nat} {nearer farther : String} {n : Nat} (hle : i ≤ j) (hi : order[i]? = some nearer)
    (hj : order[j]? = some farther) (h : flow.ReachesIn registry scope start n farther) :
    ∃ m ≤ n, flow.ReachesIn registry scope start m nearer := by
  have hstart : order[0]? = some start := by rw [hnodes, List.getElem?_cons_zero]
  have htrial : ∀ {k : Nat} {node : String}, order[k + 1]? = some node →
      ∃ trial, trials[k]? = some trial ∧ trial.link.target = node := by
    intro k node hk
    rw [hnodes, List.getElem?_cons_succ, List.getElem?_map] at hk
    exact Option.map_eq_some_iff.mp hk
  induction h generalizing i j nearer with
  | start =>
    obtain rfl := eq_of_getElem?_eq_some horder hj hstart
    obtain rfl := Nat.le_zero.mp hle
    obtain rfl := Option.some.inj (hstart.symm.trans hi)
    exact ⟨0, Nat.le_refl 0, .start⟩
  | @step n node next hnode hleads ih =>
    cases i with
    | zero =>
      obtain rfl := Option.some.inj (hstart.symm.trans hi)
      exact ⟨0, Nat.zero_le _, .start⟩
    | succ i =>
      cases j with
      | zero => omega
      | succ j =>
        obtain ⟨first, hfirst, rfl⟩ := htrial hi
        obtain ⟨second, hsecond, rfl⟩ := htrial hj
        obtain ⟨k, hk⟩ := List.mem_iff_getElem?.mp (hreaches node hnode.reaches)
        have hmem : first ∈ trials := List.mem_of_getElem? hfirst
        have hplace : second.origin ≤ k := by
          by_contra hlt
          exact (hearliest second (List.mem_of_getElem? hsecond)).no_earlier_node k
            (Nat.not_le.mp hlt) node hk hleads
        have horigin : first.origin ≤ second.origin :=
          origin_le_of_le hordered (Nat.le_of_succ_le_succ hle) hfirst hsecond
        obtain ⟨m, hm, hsource⟩ :=
          ih (Nat.le_trans horigin hplace) (hearliest first hmem).source_eq hk
        have hleads := (hearliest first hmem).leadsTo (hfires first hmem)
        exact ⟨m + 1, Nat.succ_le_succ hm, hsource.step hleads⟩

end Walks

end Walk

/-- A walk from a declared node tries the links from one visited node after another to nodes that
are not reached yet, all of them and no link twice, and what it reports is what the trials report,
in their order. After the start, the nodes are visited by the trials that fire: each over the first
link from the earliest visited node from which a link that fires leads there, which was visited
before. So later nodes are not closer to the start. The links reported to have fired are those of
these trials. -/
theorem walk_breadth_first (flow : Flow) (registry : Registry) (scope : Scope) (start : String)
    (hstart : start ∈ flow.nodeIds) :
    ∃ trials entrances : List Walk.Trial,
      entrances = trials.filter (Walk.Trial.fires registry scope) ∧
      (walk registry scope flow start).value =
        start :: (entrances.map fun trial ↦ trial.link.target) ∧
      (∀ trial ∈ entrances,
        trial.Earliest registry scope flow (walk registry scope flow start).value) ∧
      (∀ i trial, entrances[i]? = some trial → trial.origin < i + 1) ∧
      entrances.Pairwise Walk.Trial.Before ∧
      (∀ (i j n : Nat) (nearer farther : String), i ≤ j →
        (walk registry scope flow start).value[i]? = some nearer →
        (walk registry scope flow start).value[j]? = some farther →
        flow.ReachesIn registry scope start n farther →
          ∃ m ≤ n, flow.ReachesIn registry scope start m nearer) ∧
      (trials.map Walk.Trial.position).Nodup ∧
      (∀ trial ∈ trials, flow.links[trial.position]? = some trial.link) ∧
      (∀ trial : Walk.Trial, trial ∈ trials ↔
        trial.Due flow (walk registry scope flow start).value [start] entrances) ∧
      trials.Pairwise Walk.Trial.Before ∧
      (walk registry scope flow start).events =
        trials.flatMap (Walk.Trial.events registry scope) ∧
      (walk registry scope flow start).events.filterMap Event.fired? =
        entrances.map Walk.Trial.link := by
  obtain ⟨later, trials, hvalue, h⟩ := walk_proceeds registry scope hstart
  have hnodup : (start :: later).Nodup := by
    rw [← hvalue]
    exact (walk_explores hstart).nodup
  have hreaches : ∀ node, flow.Reaches registry scope start node → node ∈ start :: later := by
    intro node hpath
    rw [← hvalue]
    exact (mem_value_walk_iff hstart node).mpr hpath
  have hentrance : ∀ trial ∈ trials.filter (Walk.Trial.fires registry scope),
      trial.Earliest registry scope flow (start :: later) :=
    fun trial htrial ↦ h.earliest trial (List.mem_filter.mp htrial).1
  have hordered := h.ordered.filter (Walk.Trial.fires registry scope)
  rw [hvalue]
  refine ⟨trials, _, rfl, congrArg (start :: ·) h.later_eq, hentrance, ?_, hordered, ?_,
    Walk.nodup_position hnodup h.ordered h.earliest,
    fun trial htrial ↦ (h.earliest trial htrial).link_eq, ?_, h.ordered, h.events_eq, ?_⟩
  · intro i trial hi
    have horigin : trial.origin < 1 + i := h.origin_lt i trial hi
    omega
  · intro i j n nearer farther hle hi hj hpath
    exact Walk.exists_reachesIn_le hnodup (congrArg (start :: ·) h.later_eq) hordered hentrance
      (fun trial htrial ↦ (List.mem_filter.mp htrial).2) hreaches hle hi hj hpath
  · intro trial
    rw [h.mem_trials_iff, and_iff_right (Nat.zero_le _)]
  · rw [h.events_eq, Walk.filterMap_fired?_events]

/-- The links of `cyclicFlow` from the draft: the first is held, since no registry has it. -/
def heldLink : Link :=
  ⟨1, "draft", "checked", .expression, none⟩

def checkLink : Link :=
  ⟨2, "draft", "checked", .dependency, none⟩

theorem value_walk_cyclicFlow :
    (walk OrderedMap.empty RunScope.empty.get? cyclicFlow "draft").value =
      ["draft", "checked"] := by
  have hstart : "draft" ∈ cyclicFlow.nodeIds := by decide
  have hfirst : (Walk.expand OrderedMap.empty RunScope.empty.get? ["draft"]
      (cyclicFlow.outgoing "draft")).value = ["checked"] := by decide +kernel
  have hsecond : (Walk.expand OrderedMap.empty RunScope.empty.get? ["draft", "checked"]
      (cyclicFlow.outgoing "checked")).value = [] := by decide +kernel
  simp [value_walk_of_mem hstart, Walk.visit, hfirst, hsecond]

/-- The walk goes on from the draft over the second link, after the first has been tried. -/
theorem walk_breadth_first_cyclicFlow :
    "draft" ∈ cyclicFlow.nodeIds ∧
      (walk OrderedMap.empty RunScope.empty.get? cyclicFlow "draft").value =
        ["draft", "checked"] ∧
      (walk OrderedMap.empty RunScope.empty.get? cyclicFlow "draft").events.filterMap Event.fired? =
        [checkLink] ∧
      ∃ trials : List Walk.Trial, ⟨0, 0, heldLink⟩ ∈ trials ∧
        trials.filter (Walk.Trial.fires OrderedMap.empty RunScope.empty.get?) =
          [⟨0, 1, checkLink⟩] ∧
        (walk OrderedMap.empty RunScope.empty.get? cyclicFlow "draft").events =
          trials.flatMap (Walk.Trial.events OrderedMap.empty RunScope.empty.get?) := by
  have hstart : "draft" ∈ cyclicFlow.nodeIds := by decide
  obtain ⟨trials, _, rfl, hnodes, -, -, -, -, -, hlinks, hdue, -, hevents, hfired⟩ :=
    walk_breadth_first cyclicFlow OrderedMap.empty RunScope.empty.get? "draft" hstart
  rw [value_walk_cyclicFlow] at hnodes hdue
  -- The only link in front of the second one does not fire.
  have hcheck : ⟨0, 1, checkLink⟩ ∈ trials := by
    refine (hdue _).mpr ⟨rfl, rfl, by decide, ?_⟩
    rintro other hother (hlt | ⟨-, hlt⟩)
    · exact absurd hlt (Nat.not_lt_zero _)
    · obtain ⟨hmem, hfires⟩ := List.mem_filter.mp hother
      have hlink := hlinks other hmem
      rw [Nat.lt_one_iff.mp hlt] at hlink
      rw [Walk.Trial.fires, ← Option.some.inj hlink] at hfires
      cases hfires
  obtain ⟨entrance, hentrance, -⟩ := List.map_eq_singleton_iff.mp (List.cons.inj hnodes).2.symm
  have hmem : ⟨0, 1, checkLink⟩ ∈ [entrance] := by
    rw [← hentrance]
    exact List.mem_filter.mpr ⟨hcheck, rfl⟩
  obtain rfl := List.mem_singleton.mp hmem
  rw [hentrance] at hfired
  refine ⟨hstart, value_walk_cyclicFlow, hfired, trials, ?_, hentrance, hevents⟩
  refine (hdue _).mpr ⟨rfl, rfl, by decide, ?_⟩
  rintro other - (hlt | ⟨-, hlt⟩)
  · exact absurd hlt (Nat.not_lt_zero _)
  · exact absurd hlt (Nat.not_lt_zero _)

end FlowGate

import FlowGate.Proofs.Reachability

/-!
# The trials of a walk

A walk tries links one after another. A `Trial` is one of them: the position of its node in the
walk, the position of the link in the flow, and the link. Trials are made node by node in the order
of the walk, and for one node in the order of the flow (`Trial.Before`), and what a walk reports are
its trials (`Trial.events`).

`Expands` says what is tried of one node: a link is either passed over (`Expands.skip`) or tried
(`Expands.cons`). `Proceeds` says what is tried from some node of the queue on. One step keeps it
(`Proceeds.step`), and so does a whole visit (`visit_proceeds`). A trial is the earliest way to its
target (`Trial.Earliest`), and all trials that are due are made (`Proceeds.mem_trials_iff`).
-/

set_option autoImplicit false

namespace FlowGate

namespace Walk

/-- A link that a walk tries from the node at a position of the walk. -/
structure Trial where
  origin : Nat
  position : Nat
  link : Link

namespace Trial

/-- A trial from a node visited earlier, or one of the same node with a link that stands earlier in
the flow. -/
def Before (first second : Trial) : Prop :=
  first.origin < second.origin ∨
    first.origin = second.origin ∧ first.position < second.position

variable (registry : Registry) (scope : Scope)

def fires (trial : Trial) : Bool :=
  (registry.decide scope trial.link).value

/-- What a trial reports: what deciding the link does, and then what came of it. -/
def events (trial : Trial) : List Event :=
  (registry.decide scope trial.link).events ++
    [if trial.fires registry scope then .fired trial.link else .held trial.link]

/-- The earliest way to the target of the link in a walk of this order: no link that fires leads
there from a node visited earlier, nor does one from the same node that stands earlier in the flow.
-/
structure Earliest (flow : Flow) (order : List String) (trial : Trial) : Prop where
  link_eq : flow.links[trial.position]? = some trial.link
  source_eq : order[trial.origin]? = some trial.link.source
  no_earlier_node : ∀ place < trial.origin, ∀ node, order[place]? = some node →
    ¬flow.LeadsTo registry scope node trial.link.target
  no_earlier_link : ∀ position < trial.position, ∀ link, flow.links[position]? = some link →
    link.source = trial.link.source → link.target = trial.link.target →
      (registry.decide scope link).value = false

/-- The trial of a link from a visited node to a node that nothing has come to: it is not reached
from the beginning, and none of the entrances that come before the trial leads to it. -/
structure Due (flow : Flow) (order reached : List String) (entrances : List Trial) (trial : Trial) :
    Prop where
  link_eq : flow.links[trial.position]? = some trial.link
  source_eq : order[trial.origin]? = some trial.link.source
  target_not_mem : trial.link.target ∉ reached
  target_ne : ∀ entrance ∈ entrances, entrance.Before trial →
    entrance.link.target ≠ trial.link.target

variable {registry scope} {flow : Flow} {order : List String} {trial other : Trial}

/-- A trial that fires is a step of a path. -/
theorem Earliest.leadsTo (h : trial.Earliest registry scope flow order)
    (hfires : trial.fires registry scope = true) :
    flow.LeadsTo registry scope trial.link.source trial.link.target :=
  ⟨trial.link, List.mem_of_getElem? h.link_eq, rfl, rfl, hfires⟩

/-- Nothing that fires before the earliest way to a node leads to the node. -/
theorem Earliest.target_ne (h : trial.Earliest registry scope flow order)
    (hother : other.Earliest registry scope flow order)
    (hfires : other.fires registry scope = true) (hbefore : other.Before trial) :
    other.link.target ≠ trial.link.target := by
  intro htarget
  rcases hbefore with hlt | ⟨horigin, hlt⟩
  · refine h.no_earlier_node other.origin hlt other.link.source hother.source_eq ?_
    rw [← htarget]
    exact hother.leadsTo hfires
  · have hsource : other.link.source = trial.link.source := by
      have hat := hother.source_eq
      rw [horigin] at hat
      exact Option.some.inj (hat.symm.trans h.source_eq)
    have hheld := h.no_earlier_link other.position hlt other.link hother.link_eq hsource htarget
    exact Bool.noConfusion (hfires.symm.trans hheld)

end Trial

variable {registry : Registry} {scope : Scope} {flow : Flow}

/-! ### The links of one node -/

/-- The nodes that are reached once a link is decided. -/
def reachedBy (registry : Registry) (scope : Scope) (link : Link) (reached : List String) :
    List String :=
  if (registry.decide scope link).value then link.target :: reached else reached

theorem mem_reachedBy_iff {node : String} {link : Link} {reached : List String} :
    node ∈ reachedBy registry scope link reached ↔
      ((registry.decide scope link).value = true ∧ node = link.target) ∨ node ∈ reached := by
  unfold reachedBy
  split
  · rename_i hfires
    simp [hfires]
  · rename_i hfires
    simp [hfires]

/-- A link to a node that is not reached is decided, and then the next one is tried. -/
theorem expand_cons_of_not_mem {reached : List String} {link : Link} (h : link.target ∉ reached)
    (rest : List Link) :
    (expand registry scope reached (link :: rest)).value =
        (if (registry.decide scope link).value then [link.target] else []) ++
          (expand registry scope (reachedBy registry scope link reached) rest).value ∧
      (expand registry scope reached (link :: rest)).events =
        (registry.decide scope link).events ++
          (if (registry.decide scope link).value then .fired link else .held link) ::
            (expand registry scope (reachedBy registry scope link reached) rest).events := by
  rw [expand, if_neg h, reachedBy]
  cases hfires : (registry.decide scope link).value with
  | true => simp [hfires]
  | false => simp [hfires]

/-- What becomes of the links of one node in the order of the flow, from the position `low` on. They
are tried unless their targets are reached already, and those that fire reach their targets. -/
structure Expands (registry : Registry) (scope : Scope) (flow : Flow) (reached : List String)
    (node : String) (place low : Nat) (found : Logged (List String)) (trials : List Trial) :
    Prop where
  events_eq : found.events = trials.flatMap (Trial.events registry scope)
  found_eq : found.value =
    (trials.filter (Trial.fires registry scope)).map fun trial ↦ trial.link.target
  ordered : trials.Pairwise fun first second ↦ first.position < second.position
  le_position : ∀ trial ∈ trials, low ≤ trial.position
  origin_eq : ∀ trial ∈ trials, trial.origin = place
  source_eq : ∀ trial ∈ trials, trial.link.source = node
  link_eq : ∀ trial ∈ trials, flow.links[trial.position]? = some trial.link
  new : ∀ trial ∈ trials, trial.link.target ∉ reached
  no_earlier_link : ∀ trial ∈ trials, ∀ position < trial.position, ∀ link,
    flow.links[position]? = some link → link.source = node → link.target = trial.link.target →
      (registry.decide scope link).value = false
  complete : ∀ position link, low ≤ position → flow.links[position]? = some link →
    link.source = node → link.target ∉ reached →
      (∀ trial ∈ trials, trial.fires registry scope = true → trial.position < position →
        trial.link.target ≠ link.target) →
      ⟨place, position, link⟩ ∈ trials

section Expands

variable {reached : List String} {node : String} {place position : Nat} {link : Link}
  {trials : List Trial}

/-- One more trial in front, of a link to a node that is not reached. -/
theorem Expands.cons {rest : List Link} (hsource : link.source = node)
    (hlink : flow.links[position]? = some link) (hnew : link.target ∉ reached)
    (hfirst : ∀ earlier < position, ∀ other, flow.links[earlier]? = some other →
      other.source = node → other.target = link.target →
        (registry.decide scope other).value = false)
    (h : Expands registry scope flow (reachedBy registry scope link reached) node place
      (position + 1) (expand registry scope (reachedBy registry scope link reached) rest) trials) :
    Expands registry scope flow reached node place position
      (expand registry scope reached (link :: rest)) (⟨place, position, link⟩ :: trials) := by
  obtain ⟨hvalue, hevents⟩ := expand_cons_of_not_mem hnew rest
  constructor
  · rw [hevents, List.flatMap_cons, ← h.events_eq, Trial.events, List.append_assoc]
    rfl
  · rw [hvalue, List.filter_cons, Trial.fires, h.found_eq]
    cases (registry.decide scope link).value <;> rfl
  · exact List.pairwise_cons.mpr ⟨h.le_position, h.ordered⟩
  · refine List.forall_mem_cons.mpr ⟨Nat.le_refl _, fun trial htrial ↦ ?_⟩
    exact Nat.le_of_succ_le (h.le_position trial htrial)
  · exact List.forall_mem_cons.mpr ⟨rfl, h.origin_eq⟩
  · exact List.forall_mem_cons.mpr ⟨hsource, h.source_eq⟩
  · exact List.forall_mem_cons.mpr ⟨hlink, h.link_eq⟩
  · refine List.forall_mem_cons.mpr ⟨hnew, fun trial htrial hmem ↦ h.new trial htrial ?_⟩
    exact mem_reachedBy_iff.mpr (.inr hmem)
  · exact List.forall_mem_cons.mpr ⟨hfirst, h.no_earlier_link⟩
  · intro later other hle hother hnode htarget hopen
    obtain ⟨hhead, htail⟩ := List.forall_mem_cons.mp hopen
    rcases Nat.eq_or_lt_of_le hle with rfl | hlt
    · obtain rfl := Option.some.inj (hlink.symm.trans hother)
      exact List.mem_cons_self
    · refine List.mem_cons_of_mem _ (h.complete later other hlt hother hnode ?_ htail)
      intro hmem
      rcases mem_reachedBy_iff.mp hmem with ⟨hfires, heq⟩ | hmem
      · exact hhead hfires hlt heq.symm
      · exact htarget hmem

/-- A link is passed over if it leads from another node or to a reached one. -/
theorem Expands.skip {found : Logged (List String)} (hlink : flow.links[position]? = some link)
    (hskip : link.source = node → link.target ∈ reached)
    (h : Expands registry scope flow reached node place (position + 1) found trials) :
    Expands registry scope flow reached node place position found trials := by
  refine { h with le_position := ?_, complete := ?_ }
  · exact fun trial htrial ↦ Nat.le_of_succ_le (h.le_position trial htrial)
  · intro later other hle hother hnode htarget
    rcases Nat.eq_or_lt_of_le hle with rfl | hlt
    · obtain rfl := Option.some.inj (hlink.symm.trans hother)
      exact absurd (hskip hnode) htarget
    · exact h.complete later other hlt hother hnode htarget

end Expands

/-- Those of the links that lead from the node and fire lead to reached nodes. -/
def Settled (registry : Registry) (scope : Scope) (reached : List String) (node : String)
    (links : List Link) : Prop :=
  ∀ link ∈ links, link.source = node → (registry.decide scope link).value = true →
    link.target ∈ reached

section Settled

variable {reached : List String} {node : String} {before : List Link} {link : Link}

/-- A link that is passed over is settled as it stands. -/
theorem Settled.concat_of_passed (h : Settled registry scope reached node before)
    (hskip : link.source = node → link.target ∈ reached) :
    Settled registry scope reached node (before ++ [link]) :=
  List.forall_mem_append.mpr ⟨h, List.forall_mem_singleton.mpr fun hnode _ ↦ hskip hnode⟩

/-- A link is settled once it is decided. -/
theorem Settled.concat_of_decided (h : Settled registry scope reached node before) :
    Settled registry scope (reachedBy registry scope link reached) node (before ++ [link]) := by
  refine List.forall_mem_append.mpr ⟨fun other hother hnode hfires ↦ ?_,
    List.forall_mem_singleton.mpr fun _ hfires ↦ mem_reachedBy_iff.mpr (.inl ⟨hfires, rfl⟩)⟩
  exact mem_reachedBy_iff.mpr (.inr (h other hother hnode hfires))

/-- No settled link to a node that is not reached fires. -/
theorem Settled.value_decide_eq_false (h : Settled registry scope reached node before)
    (hmem : link ∈ before) (hsource : link.source = node) (htarget : link.target ∉ reached) :
    (registry.decide scope link).value = false :=
  Bool.eq_false_iff.mpr fun hfires ↦ htarget (h link hmem hsource hfires)

end Settled

/-- The links of a flow from some position on are tried for a node if those in front of them are
settled. -/
theorem exists_expands_of_append {before rest : List Link} {reached : List String} {node : String}
    (place : Nat) (hlinks : flow.links = before ++ rest)
    (hbefore : Settled registry scope reached node before) :
    ∃ trials, Expands registry scope flow reached node place before.length
      (expand registry scope reached (rest.filter fun link ↦ link.source = node)) trials := by
  induction rest generalizing before reached with
  | nil =>
    have hend : ∀ position, before.length ≤ position → flow.links[position]? = none := by
      simp [hlinks]
    refine ⟨[], rfl, rfl, by simp, by simp, by simp, by simp, by simp, by simp, by simp, ?_⟩
    intro position link hle hlink
    rw [hend position hle] at hlink
    cases hlink
  | cons link rest ih =>
    have hnext : flow.links = (before ++ [link]) ++ rest := by simp [hlinks]
    have hlink : flow.links[before.length]? = some link := by simp [hlinks]
    have hlength : (before ++ [link]).length = before.length + 1 := List.length_append
    by_cases hsource : link.source = node
    · rw [List.filter_cons_of_pos (by simpa using hsource)]
      by_cases hreached : link.target ∈ reached
      · have hskip : link.source = node → link.target ∈ reached := fun _ ↦ hreached
        obtain ⟨trials, htrials⟩ := ih hnext (hbefore.concat_of_passed hskip)
        rw [hlength] at htrials
        rw [expand, if_pos hreached]
        exact ⟨trials, htrials.skip hlink hskip⟩
      · have hfirst : ∀ position < before.length, ∀ other, flow.links[position]? = some other →
            other.source = node → other.target = link.target →
              (registry.decide scope other).value = false := by
          intro position hposition other hother hnode htarget
          rw [hlinks, List.getElem?_append_left hposition] at hother
          rw [← htarget] at hreached
          exact hbefore.value_decide_eq_false (List.mem_of_getElem? hother) hnode hreached
        obtain ⟨trials, htrials⟩ := ih hnext hbefore.concat_of_decided
        rw [hlength] at htrials
        exact ⟨⟨place, before.length, link⟩ :: trials, htrials.cons hsource hlink hreached hfirst⟩
    · have hskip : link.source = node → link.target ∈ reached := fun hnode ↦ absurd hnode hsource
      obtain ⟨trials, htrials⟩ := ih hnext (hbefore.concat_of_passed hskip)
      rw [hlength] at htrials
      rw [List.filter_cons_of_neg (by simpa using hsource)]
      exact ⟨trials, htrials.skip hlink hskip⟩

/-- The links of a node are tried in the order of the flow. -/
theorem exists_expands (flow : Flow) (reached : List String) (node : String) (place : Nat) :
    ∃ trials, Expands registry scope flow reached node place 0
      (expand registry scope reached (flow.outgoing node)) trials :=
  exists_expands_of_append place (List.nil_append flow.links).symm (List.forall_mem_nil _)

/-! ### Visits -/

/-- How a visit goes on in a walk of this order, where `place` is the position of the first node of
the queue and `reached` are the nodes that are reached. The nodes that are reached later are the
targets of the trials that fire. -/
structure Proceeds (registry : Registry) (scope : Scope) (flow : Flow) (order : List String)
    (place : Nat) (reached : List String) (events : List Event) (later : List String)
    (trials : List Trial) : Prop where
  events_eq : events = trials.flatMap (Trial.events registry scope)
  later_eq : later =
    (trials.filter (Trial.fires registry scope)).map fun trial ↦ trial.link.target
  ordered : trials.Pairwise Trial.Before
  onward : ∀ trial ∈ trials, place ≤ trial.origin
  new : ∀ trial ∈ trials, trial.link.target ∉ reached
  earliest : ∀ trial ∈ trials, trial.Earliest registry scope flow order
  origin_lt : ∀ i trial, (trials.filter (Trial.fires registry scope))[i]? = some trial →
    trial.origin < reached.length + i
  complete : ∀ trial : Trial, place ≤ trial.origin →
    trial.Due flow order reached (trials.filter (Trial.fires registry scope)) → trial ∈ trials

section Visits

variable {done others reached order laterNodes : List String} {node : String}
  {found rest : Logged (List String)} {first later trials : List Trial}

/-- A trial of a visited node is the earliest way to its target, if the nodes visited before it have
led to nothing but reached nodes. -/
theorem Expands.earliest (h : Expands registry scope flow reached node done.length 0 found trials)
    (hclosed : ∀ origin ∈ done, ∀ target, flow.LeadsTo registry scope origin target →
      target ∈ reached) (trial : Trial) (htrial : trial ∈ trials) :
    trial.Earliest registry scope flow (done ++ node :: others) := by
  have horigin := h.origin_eq trial htrial
  have hsource := h.source_eq trial htrial
  constructor
  · exact h.link_eq trial htrial
  · simp [horigin, hsource]
  · intro place hplace origin hat hleads
    rw [horigin] at hplace
    rw [List.getElem?_append_left hplace] at hat
    exact h.new trial htrial (hclosed origin (List.mem_of_getElem? hat) _ hleads)
  · rw [hsource]
    exact h.no_earlier_link trial htrial

/-- A trial of the first node of the queue that is due is made. -/
theorem Expands.mem_of_due {trial : Trial}
    (h : Expands registry scope flow reached node done.length 0 found first)
    (horder : order = done ++ node :: others) (horigin : trial.origin = done.length)
    (hdue : trial.Due flow order reached
      ((first ++ later).filter (Trial.fires registry scope))) : trial ∈ first := by
  have hsource : trial.link.source = node := by
    have hat := hdue.source_eq
    rw [horder, horigin, List.getElem?_append_right (Nat.le_refl _), Nat.sub_self,
      List.getElem?_cons_zero] at hat
    exact (Option.some.inj hat).symm
  have hmem := h.complete trial.position trial.link (Nat.zero_le _) hdue.link_eq hsource
    hdue.target_not_mem fun entrance hentrance hfires hlt ↦
      hdue.target_ne entrance
        (List.mem_filter.mpr ⟨List.mem_append_left later hentrance, hfires⟩)
        (.inr ⟨(h.origin_eq entrance hentrance).trans horigin.symm, hlt⟩)
  rwa [← horigin] at hmem

/-- A trial of a later node that is due is due when the first node of the queue is visited. -/
theorem Expands.due_of_due {trial : Trial}
    (h : Expands registry scope flow reached node done.length 0 found first)
    (hlt : done.length < trial.origin)
    (hdue : trial.Due flow order reached
      ((first ++ later).filter (Trial.fires registry scope))) :
    trial.Due flow order (reached ++ found.value)
      (later.filter (Trial.fires registry scope)) := by
  rw [List.filter_append] at hdue
  refine ⟨hdue.link_eq, hdue.source_eq, fun hmem ↦ ?_, fun entrance hentrance ↦
    hdue.target_ne entrance (List.mem_append_right _ hentrance)⟩
  rcases List.mem_append.mp hmem with hmem | hmem
  · exact hdue.target_not_mem hmem
  · rw [h.found_eq] at hmem
    obtain ⟨entrance, hentrance, htarget⟩ := List.mem_map.mp hmem
    have horigin := h.origin_eq entrance (List.mem_filter.mp hentrance).1
    exact hdue.target_ne entrance (List.mem_append_left _ hentrance) (.inl (by omega)) htarget

/-- The trials of the first node of the queue come before those of the rest of the visit. -/
theorem Proceeds.step (hknown : done.length < reached.length)
    (horder : order = done ++ node :: others)
    (hclosed : ∀ origin ∈ done, ∀ target, flow.LeadsTo registry scope origin target →
      target ∈ reached)
    (hfirst : Expands registry scope flow reached node done.length 0 found first)
    (h : Proceeds registry scope flow order (done.length + 1) (reached ++ found.value)
      rest.events laterNodes later) :
    Proceeds registry scope flow order done.length reached (found.events ++ rest.events)
      (found.value ++ laterNodes) (first ++ later) := by
  constructor
  · rw [List.flatMap_append, ← hfirst.events_eq, ← h.events_eq]
  · rw [List.filter_append, List.map_append, ← hfirst.found_eq, ← h.later_eq]
  · refine List.pairwise_append.mpr ⟨?_, h.ordered, fun trial htrial other hother ↦ .inl ?_⟩
    · refine hfirst.ordered.imp_of_mem fun htrial hother hlt ↦ .inr ⟨?_, hlt⟩
      rw [hfirst.origin_eq _ htrial, hfirst.origin_eq _ hother]
    · have hplace := h.onward other hother
      rw [hfirst.origin_eq trial htrial]
      omega
  · intro trial htrial
    rcases List.mem_append.mp htrial with htrial | htrial
    · exact Nat.le_of_eq (hfirst.origin_eq trial htrial).symm
    · have hplace := h.onward trial htrial
      omega
  · intro trial htrial
    rcases List.mem_append.mp htrial with htrial | htrial
    · exact hfirst.new trial htrial
    · exact fun hmem ↦ h.new trial htrial (List.mem_append_left _ hmem)
  · intro trial htrial
    rcases List.mem_append.mp htrial with htrial | htrial
    · rw [horder]
      exact hfirst.earliest hclosed trial htrial
    · exact h.earliest trial htrial
  · intro i trial hi
    have hlength : (first.filter (Trial.fires registry scope)).length = found.value.length := by
      rw [hfirst.found_eq, List.length_map]
    rw [List.filter_append] at hi
    by_cases hlt : i < found.value.length
    · rw [List.getElem?_append_left (by omega)] at hi
      rw [hfirst.origin_eq trial (List.mem_filter.mp (List.mem_of_getElem? hi)).1]
      omega
    · rw [List.getElem?_append_right (by omega)] at hi
      have hplace := h.origin_lt _ trial hi
      rw [List.length_append] at hplace
      omega
  · intro trial hplace hdue
    rcases Nat.eq_or_lt_of_le hplace with horigin | hlt
    · exact List.mem_append_left later (hfirst.mem_of_due horder horigin.symm hdue)
    · exact List.mem_append_right first (h.complete trial hlt (hfirst.due_of_due hlt hdue))

/-- The trials of a visit are those that are due from its first node on. -/
theorem Proceeds.mem_trials_iff {events : List Event} {place : Nat}
    (h : Proceeds registry scope flow order place reached events laterNodes trials)
    (trial : Trial) :
    trial ∈ trials ↔ place ≤ trial.origin ∧
      trial.Due flow order reached (trials.filter (Trial.fires registry scope)) := by
  constructor
  · intro htrial
    have hearliest := h.earliest trial htrial
    refine ⟨h.onward trial htrial, hearliest.link_eq, hearliest.source_eq, h.new trial htrial, ?_⟩
    intro entrance hentrance hbefore
    obtain ⟨hmem, hfires⟩ := List.mem_filter.mp hentrance
    exact hearliest.target_ne (h.earliest entrance hmem) hfires hbefore
  · rintro ⟨hplace, hdue⟩
    exact h.complete trial hplace hdue

end Visits

/-- A visit goes on from the nodes that were visited before, if these have led to nothing but nodes
that are reached. -/
theorem visit_proceeds {done reached queue : List String} (hreached : reached = done ++ queue)
    (hclosed : ∀ origin ∈ done, ∀ target, flow.LeadsTo registry scope origin target →
      target ∈ reached) :
    ∃ later trials, (visit registry scope flow reached queue).value = queue ++ later ∧
      Proceeds registry scope flow (reached ++ later) done.length reached
        (visit registry scope flow reached queue).events later trials := by
  fun_induction visit registry scope flow reached queue generalizing done with
  | case1 reached =>
    refine ⟨[], [], rfl, rfl, rfl, by simp, by simp, by simp, by simp, by simp, ?_⟩
    intro trial hplace hdue
    have hend : (reached ++ [])[trial.origin]? = none := by simpa [hreached] using hplace
    rw [hdue.source_eq] at hend
    cases hend
  | case2 reached first queue found rest =>
    rename_i ih
    have hnext : reached ++ found.value = (done ++ [first]) ++ (queue ++ found.value) := by
      simp [hreached]
    have hdone : ∀ origin ∈ done ++ [first], ∀ target,
        flow.LeadsTo registry scope origin target → target ∈ reached ++ found.value := by
      intro origin horigin target hleads
      rcases List.mem_append.mp horigin with horigin | horigin
      · exact List.mem_append_left _ (hclosed origin horigin target hleads)
      · obtain rfl := List.mem_singleton.mp horigin
        by_cases htarget : target ∈ reached
        · exact List.mem_append_left _ htarget
        · exact List.mem_append_right _ (mem_value_expand_outgoing_iff.mpr ⟨htarget, hleads⟩)
    obtain ⟨later, trials, hvalue, hrest⟩ := ih hnext hdone
    obtain ⟨firstTrials, hfirst⟩ := exists_expands flow reached first done.length
    refine ⟨found.value ++ later, firstTrials ++ trials, ?_, ?_⟩
    · rw [hvalue, List.cons_append, List.append_assoc]
    · rw [List.append_assoc, List.length_append, List.length_singleton] at hrest
      have hknown : done.length < reached.length := by simp [hreached]
      have horder : reached ++ (found.value ++ later) =
          done ++ first :: (queue ++ (found.value ++ later)) := by
        rw [hreached, List.append_assoc, List.cons_append]
      exact .step hknown horder hclosed hfirst hrest

end Walk

/-- From a declared node a walk goes on from the node alone. -/
theorem walk_proceeds {flow : Flow} {start : String} (registry : Registry) (scope : Scope)
    (hstart : start ∈ flow.nodeIds) :
    ∃ later trials, (walk registry scope flow start).value = start :: later ∧
      Walk.Proceeds registry scope flow (start :: later) 0 [start]
        (walk registry scope flow start).events later trials := by
  have hclosed : ∀ origin ∈ ([] : List String), ∀ target,
      flow.LeadsTo registry scope origin target → target ∈ [start] := by
    simp
  rw [walk, if_pos ((flow.hasNode_iff start).mpr hstart)]
  exact Walk.visit_proceeds (List.nil_append [start]).symm hclosed

end FlowGate

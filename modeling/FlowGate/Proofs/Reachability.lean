import FlowGate.Flow.Walk
import FlowGate.Proofs.Validity
import Mathlib.Logic.Relation

/-!
# Where a walk gets

A walk from a declared node visits the nodes that firing links reach from it, each of them once.
`Explores` is what a visit of a queue achieves: the nodes of the queue are visited, what is visited
was reached from the queue, and a firing link from a visited node leads to a node that is visited
or was reached before. One step keeps this (`Explores.step`), and so does a whole visit
(`visit_explores`). At the start nothing is reached but the start itself, so the visited nodes are
closed under firing links (`mem_value_walk_iff`).
-/

set_option autoImplicit false

namespace FlowGate

namespace Flow

/-- A link of the flow that fires goes from one node to the other. -/
def LeadsTo (flow : Flow) (registry : Registry) (scope : Scope) (origin node : String) : Prop :=
  ∃ link ∈ flow.links, link.source = origin ∧ link.target = node ∧
    (registry.decide scope link).value = true

/-- A path of links that fire goes from one node to the other. The empty path stays where it is. -/
def Reaches (flow : Flow) (registry : Registry) (scope : Scope) : String → String → Prop :=
  Relation.ReflTransGen (flow.LeadsTo registry scope)

theorem hasNode_iff (flow : Flow) (id : String) : flow.hasNode id = true ↔ id ∈ flow.nodeIds := by
  rw [hasNode, List.contains_iff_mem]

/-- Firing links of a valid flow stay among its nodes. -/
theorem Reaches.mem_nodeIds {flow : Flow} {registry : Registry} {scope : Scope}
    {origin node : String} (hvalid : flow.validate = .ok ())
    (h : flow.Reaches registry scope origin node) (horigin : origin ∈ flow.nodeIds) :
    node ∈ flow.nodeIds := by
  obtain ⟨-, -, hends⟩ := flow.validate_eq_ok_iff.mp hvalid
  induction h with
  | refl => exact horigin
  | tail _ hstep _ =>
    obtain ⟨link, hlink, -, rfl, -⟩ := hstep
    exact (hends link hlink).2

end Flow

namespace Walk

variable {registry : Registry} {scope : Scope} {flow : Flow} {reached queue : List String}

/-! ### The links of one node -/

theorem value_expand_cons (link : Link) (rest : List Link) :
    (expand registry scope reached (link :: rest)).value =
      if link.target ∈ reached then (expand registry scope reached rest).value
      else if (registry.decide scope link).value = true then
        link.target :: (expand registry scope (link.target :: reached) rest).value
      else (expand registry scope reached rest).value := by
  rw [expand]
  by_cases hreached : link.target ∈ reached
  · simp only [hreached, if_true]
  · by_cases hfires : (registry.decide scope link).value = true
    · simp [hreached, hfires]
    · simp [hreached, hfires]

/-- The nodes newly reached are those that a firing link leads to and that were not reached
before. A link that is passed over leads to a node that is reached already. -/
theorem mem_value_expand_iff {links : List Link} {node : String} :
    node ∈ (expand registry scope reached links).value ↔
      node ∉ reached ∧
        ∃ link ∈ links, link.target = node ∧ (registry.decide scope link).value = true := by
  induction links generalizing reached with
  | nil => simp [expand]
  | cons link rest ih =>
    rw [value_expand_cons]
    by_cases hreached : link.target ∈ reached
    · rw [if_pos hreached, ih]
      refine and_congr_right fun hnew ↦ ?_
      have hne : link.target ≠ node := by
        rintro rfl
        exact hnew hreached
      simp [hne]
    · by_cases hfires : (registry.decide scope link).value = true
      · rw [if_neg hreached, if_pos hfires, List.mem_cons, ih]
        by_cases hnode : node = link.target
        · subst hnode
          simp [hreached, hfires]
        · simp [hnode, Ne.symm hnode]
      · rw [if_neg hreached, if_neg hfires, ih]
        simp [hfires]

/-- No node is newly reached twice. -/
theorem nodup_value_expand (links : List Link) :
    (expand registry scope reached links).value.Nodup := by
  induction links generalizing reached with
  | nil => simp [expand]
  | cons link rest ih =>
    rw [value_expand_cons]
    by_cases hreached : link.target ∈ reached
    · rw [if_pos hreached]
      exact ih
    · by_cases hfires : (registry.decide scope link).value = true
      · rw [if_neg hreached, if_pos hfires]
        refine List.nodup_cons.mpr ⟨fun hmem ↦ ?_, ih⟩
        exact (mem_value_expand_iff.mp hmem).1 List.mem_cons_self
      · rw [if_neg hreached, if_neg hfires]
        exact ih

/-- A node is newly reached from another iff a firing link leads there and it was not reached
before. -/
theorem mem_value_expand_outgoing_iff {origin node : String} :
    node ∈ (expand registry scope reached (flow.outgoing origin)).value ↔
      node ∉ reached ∧ flow.LeadsTo registry scope origin node := by
  rw [mem_value_expand_iff]
  simp [Flow.outgoing, Flow.LeadsTo, and_assoc]

/-! ### Visits -/

/-- The nodes of `order` are what a visit of the queue comes to, where `reached` are the nodes that
are not queued again. -/
structure Explores (registry : Registry) (scope : Scope) (flow : Flow)
    (reached queue order : List String) : Prop where
  queued : ∀ node ∈ queue, node ∈ order
  fresh : ∀ node ∈ order, node ∈ queue ∨ node ∉ reached
  nodup : order.Nodup
  sound : ∀ node ∈ order, ∃ origin ∈ queue, flow.Reaches registry scope origin node
  closed : ∀ origin ∈ order, ∀ node, flow.LeadsTo registry scope origin node →
    node ∈ order ∨ node ∈ reached

/-- Visiting the first node of the queue, and then a queue with the nodes that it newly reaches,
visits the whole queue. -/
theorem Explores.step {first : String} {found rest : List String}
    (hqueue : ∀ node ∈ first :: queue, node ∈ reached) (hfirst : first ∉ queue)
    (hfound : ∀ node, node ∈ found ↔ node ∉ reached ∧ flow.LeadsTo registry scope first node)
    (h : Explores registry scope flow (reached ++ found) (queue ++ found) rest) :
    Explores registry scope flow reached (first :: queue) (first :: rest) := by
  have hnew : ∀ node ∈ rest, node ∈ queue ∨ node ∉ reached := by
    intro node hnode
    rcases h.fresh node hnode with hmem | hmem
    · rcases List.mem_append.mp hmem with hmem | hmem
      · exact .inl hmem
      · exact .inr ((hfound node).mp hmem).1
    · exact .inr fun hold ↦ hmem (List.mem_append_left found hold)
  constructor
  · intro node hnode
    rcases List.mem_cons.mp hnode with rfl | hnode
    · exact List.mem_cons_self
    · exact List.mem_cons_of_mem _ (h.queued node (List.mem_append_left found hnode))
  · intro node hnode
    rcases List.mem_cons.mp hnode with rfl | hnode
    · exact .inl List.mem_cons_self
    · rcases hnew node hnode with hmem | hmem
      · exact .inl (List.mem_cons_of_mem _ hmem)
      · exact .inr hmem
  · refine List.nodup_cons.mpr ⟨fun hmem ↦ ?_, h.nodup⟩
    rcases hnew first hmem with hold | hold
    · exact hfirst hold
    · exact hold (hqueue first List.mem_cons_self)
  · intro node hnode
    rcases List.mem_cons.mp hnode with rfl | hnode
    · exact ⟨node, List.mem_cons_self, .refl⟩
    · obtain ⟨origin, horigin, hpath⟩ := h.sound node hnode
      rcases List.mem_append.mp horigin with hmem | hmem
      · exact ⟨origin, List.mem_cons_of_mem _ hmem, hpath⟩
      · exact ⟨first, List.mem_cons_self, .head ((hfound origin).mp hmem).2 hpath⟩
  · intro origin horigin node hleads
    by_cases hreached : node ∈ reached
    · exact .inr hreached
    · left
      refine List.mem_cons_of_mem _ ?_
      rcases List.mem_cons.mp horigin with rfl | horigin
      · exact h.queued node (List.mem_append_right queue ((hfound node).mpr ⟨hreached, hleads⟩))
      · rcases h.closed origin horigin node hleads with hmem | hmem
        · exact hmem
        · have hmem := (List.mem_append.mp hmem).resolve_left hreached
          exact h.queued node (List.mem_append_right queue hmem)

/-- A visit explores its queue, which has no node twice and only nodes that count as reached. -/
theorem visit_explores (hqueue : ∀ node ∈ queue, node ∈ reached) (hnodup : queue.Nodup) :
    Explores registry scope flow reached queue (visit registry scope flow reached queue).value := by
  fun_induction visit registry scope flow reached queue with
  | case1 reached => constructor <;> simp
  | case2 reached first queue found rest ih =>
    have hfound : ∀ node, node ∈ found.value ↔
        node ∉ reached ∧ flow.LeadsTo registry scope first node :=
      fun node ↦ mem_value_expand_outgoing_iff
    obtain ⟨hfirst, hrest⟩ := List.nodup_cons.mp hnodup
    refine .step hqueue hfirst hfound (ih ?_ ?_)
    · intro node hnode
      rcases List.mem_append.mp hnode with hnode | hnode
      · exact List.mem_append_left _ (hqueue node (List.mem_cons_of_mem _ hnode))
      · exact List.mem_append_right _ hnode
    · refine List.nodup_append.mpr ⟨hrest, nodup_value_expand _, ?_⟩
      intro node hold other hnew heq
      rw [← heq] at hnew
      exact ((hfound node).mp hnew).1 (hqueue node (List.mem_cons_of_mem _ hold))

/-- The first node of the queue is visited first. -/
theorem head?_value_visit (first : String) :
    (visit registry scope flow reached (first :: queue)).value.head? = some first := by
  rw [visit]
  rfl

end Walk

/-! ### Walks -/

section Walks

variable {registry : Registry} {scope : Scope} {flow : Flow} {start : String}

/-- From a declared node a walk is the visit of that node. -/
theorem value_walk_of_mem (h : start ∈ flow.nodeIds) :
    (walk registry scope flow start).value =
      (Walk.visit registry scope flow [start] [start]).value := by
  rw [walk, if_pos ((flow.hasNode_iff start).mpr h)]

theorem value_walk_of_not_mem (h : start ∉ flow.nodeIds) :
    (walk registry scope flow start).value = [] := by
  rw [walk, if_neg fun hnode ↦ h ((flow.hasNode_iff start).mp hnode)]
  rfl

theorem walk_explores (h : start ∈ flow.nodeIds) :
    Walk.Explores registry scope flow [start] [start] (walk registry scope flow start).value := by
  rw [value_walk_of_mem h]
  exact Walk.visit_explores (fun _ hnode ↦ hnode) (List.pairwise_singleton _ start)

/-- From a declared node a walk visits what firing links reach. -/
theorem mem_value_walk_iff (h : start ∈ flow.nodeIds) (node : String) :
    node ∈ (walk registry scope flow start).value ↔ flow.Reaches registry scope start node := by
  have hexplores : Walk.Explores registry scope flow [start] [start]
      (walk registry scope flow start).value := walk_explores h
  have hstart := hexplores.queued start List.mem_cons_self
  constructor
  · intro hnode
    obtain ⟨origin, horigin, hpath⟩ := hexplores.sound node hnode
    obtain rfl := List.mem_singleton.mp horigin
    exact hpath
  · intro hpath
    induction hpath with
    | refl => exact hstart
    | tail _ hleads ih =>
      rcases hexplores.closed _ ih _ hleads with hnode | hnode
      · exact hnode
      · obtain rfl := List.mem_singleton.mp hnode
        exact hstart

/-- In a valid flow a walk visits declared nodes only. -/
theorem mem_nodeIds_of_mem_value_walk (hvalid : flow.validate = .ok ()) {node : String}
    (hnode : node ∈ (walk registry scope flow start).value) : node ∈ flow.nodeIds := by
  by_cases h : start ∈ flow.nodeIds
  · exact ((mem_value_walk_iff h node).mp hnode).mem_nodeIds hvalid h
  · rw [value_walk_of_not_mem h] at hnode
    cases hnode

end Walks

/-- A walk from a declared node begins with the node, visits no node twice, and visits exactly the
nodes that a path of firing links leads to. A walk from anywhere else visits nothing. In a valid
flow only declared nodes are visited. -/
theorem walk_visits_reachable (flow : Flow) (registry : Registry) (scope : Scope)
    (start : String) :
    (start ∈ flow.nodeIds →
      (walk registry scope flow start).value.head? = some start ∧
        (walk registry scope flow start).value.Nodup ∧
        ∀ node, node ∈ (walk registry scope flow start).value ↔
          flow.Reaches registry scope start node) ∧
      (start ∉ flow.nodeIds → (walk registry scope flow start).value = []) ∧
      (flow.validate = .ok () →
        ∀ node ∈ (walk registry scope flow start).value, node ∈ flow.nodeIds) := by
  refine ⟨fun hstart ↦ ⟨?_, ?_, ?_⟩, ?_, ?_⟩
  · rw [value_walk_of_mem hstart]
    exact Walk.head?_value_visit start
  · exact (walk_explores hstart).nodup
  · exact mem_value_walk_iff hstart
  · exact value_walk_of_not_mem
  · intro hvalid node hnode
    exact mem_nodeIds_of_mem_value_walk hvalid hnode

/-- Two nodes on a cycle, one with a link to itself, and a node that no link leads to. -/
def cyclicFlow : Flow :=
  ⟨"review", "", [⟨"draft", ""⟩, ⟨"checked", ""⟩, ⟨"lost", ""⟩],
    [⟨1, "draft", "checked", .expression, none⟩, ⟨2, "draft", "checked", .dependency, none⟩,
      ⟨3, "checked", "checked", .dependency, none⟩, ⟨4, "checked", "draft", .dependency, none⟩,
      ⟨5, "lost", "draft", .dependency, none⟩]⟩

theorem walk_visits_reachable_cyclicFlow :
    cyclicFlow.validate = .ok () ∧ "draft" ∈ cyclicFlow.nodeIds ∧
      "checked" ∈ (walk OrderedMap.empty RunScope.empty.get? cyclicFlow "draft").value ∧
      (walk OrderedMap.empty RunScope.empty.get? cyclicFlow "gone").value = [] := by
  have hvalid : cyclicFlow.validate = .ok () := rfl
  have hstart : "draft" ∈ cyclicFlow.nodeIds := by decide
  have hgone : "gone" ∉ cyclicFlow.nodeIds := by decide
  have hwalk := walk_visits_reachable cyclicFlow OrderedMap.empty RunScope.empty.get?
  have hleads : cyclicFlow.LeadsTo OrderedMap.empty RunScope.empty.get? "draft" "checked" :=
    ⟨⟨2, "draft", "checked", .dependency, none⟩, by decide, rfl, rfl, rfl⟩
  exact ⟨hvalid, hstart, (((hwalk "draft").1 hstart).2.2 "checked").mpr (.single hleads),
    (hwalk "gone").2.1 hgone⟩

end FlowGate

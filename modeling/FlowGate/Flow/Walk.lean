import FlowGate.Flow.Gate

/-!
# Walks

A walk visits the nodes of a flow that can be reached from a start over links that fire. It is
breadth-first: nodes are visited in the order in which they are first reached, and the links of a
node are tried in the order of the flow. A link to a node that is already reached is not decided
again. The walk ends because each visit either reaches a new target of a link or shortens the queue.
-/

set_option autoImplicit false

namespace FlowGate

namespace Walk

/-- Decides links in order and gives the nodes that they newly reach, which are not among those
`reached` before. -/
def expand (registry : Registry) (scope : Scope) (reached : List String) :
    List Link → Logged (List String)
  | [] => pure []
  | link :: rest =>
    if link.target ∈ reached then expand registry scope reached rest
    else do
      if ← registry.decide scope link then
        Logged.emit (.fired link)
        let more ← expand registry scope (link.target :: reached) rest
        pure (link.target :: more)
      else
        Logged.emit (.held link)
        expand registry scope reached rest

/-- The nodes newly reached are targets of the links and were not reached before. -/
theorem mem_expand {registry : Registry} {scope : Scope} {reached : List String}
    {links : List Link} {node : String}
    (hnode : node ∈ (expand registry scope reached links).value) :
    node ∉ reached ∧ ∃ link ∈ links, link.target = node := by
  induction links generalizing reached with
  | nil => simp [expand] at hnode
  | cons link rest ih =>
    rw [expand] at hnode
    split at hnode
    · obtain ⟨hnew, other, hother, htarget⟩ := ih hnode
      exact ⟨hnew, other, List.mem_cons_of_mem _ hother, htarget⟩
    · rename_i hlink
      rw [Logged.value_bind] at hnode
      split at hnode
      · simp only [Logged.value_bind, Logged.value_pure, List.mem_cons] at hnode
        rcases hnode with rfl | hnode
        · exact ⟨hlink, link, List.mem_cons_self, rfl⟩
        · obtain ⟨hnew, other, hother, htarget⟩ := ih hnode
          exact ⟨fun h ↦ hnew (List.mem_cons_of_mem _ h), other, List.mem_cons_of_mem _ hother,
            htarget⟩
      · obtain ⟨hnew, other, hother, htarget⟩ := ih hnode
        exact ⟨hnew, other, List.mem_cons_of_mem _ hother, htarget⟩

/-- The number of links whose targets are not reached yet. -/
def openLinks (flow : Flow) (reached : List String) : Nat :=
  (flow.links.filter fun link ↦ link.target ∉ reached).length

/-- Reaching a new target of a link leaves fewer links open. -/
theorem openLinks_append_lt {flow : Flow} {reached more : List String} {node : String}
    (hnode : node ∈ more) (hnew : node ∉ reached)
    (htarget : ∃ link ∈ flow.links, link.target = node) :
    openLinks flow (reached ++ more) < openLinks flow reached := by
  obtain ⟨link, hlink, rfl⟩ := htarget
  have hsplit : (flow.links.filter fun link ↦ link.target ∉ reached ++ more) =
      (flow.links.filter fun link ↦ link.target ∉ reached).filter
        fun link ↦ link.target ∉ more := by
    rw [List.filter_filter]
    congr 1
    funext other
    simp [Bool.and_comm]
  rw [openLinks, openLinks, hsplit, List.length_filter_lt_length_iff_exists]
  exact ⟨link, List.mem_filter.mpr ⟨hlink, by simpa using hnew⟩, by simpa using hnode⟩

/-- Visits the nodes of the queue and those that are reached on the way. -/
def visit (registry : Registry) (scope : Scope) (flow : Flow) (reached queue : List String) :
    Logged (List String) :=
  match queue with
  | [] => pure []
  | node :: queue =>
    let found := expand registry scope reached (flow.outgoing node)
    let rest := visit registry scope flow (reached ++ found.value) (queue ++ found.value)
    ⟨node :: rest.value, found.events ++ rest.events⟩
termination_by (openLinks flow reached, queue.length)
decreasing_by
  cases hfound : (expand registry scope reached (flow.outgoing node)).value with
  | nil =>
    simp only [List.append_nil, List.length_cons]
    exact Prod.Lex.right _ (Nat.lt_succ_self _)
  | cons first others =>
    have hfirst : first ∈ (expand registry scope reached (flow.outgoing node)).value := by
      rw [hfound]
      exact List.mem_cons_self
    obtain ⟨hnew, link, hlink, htarget⟩ := mem_expand hfirst
    exact Prod.Lex.left _ _ (openLinks_append_lt List.mem_cons_self hnew
      ⟨link, (List.mem_filter.mp hlink).1, htarget⟩)

end Walk

/-- The nodes that can be reached from a start over links that fire, in the order of the walk. No
node is reached from a start outside of the flow. -/
def walk (registry : Registry) (scope : Scope) (flow : Flow) (start : String) :
    Logged (List String) :=
  if flow.hasNode start then
    Walk.visit registry scope flow [start] [start]
  else do
    Logged.emit (.unknownStart start flow.name)
    pure []

end FlowGate

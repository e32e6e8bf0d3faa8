import FlowGate.Flow.Basic
import Mathlib.Tactic.SplitIfs

/-!
# Valid flows

What `validate` promises of a flow that it accepts. `firstLinkDefect?_eq_none_iff` says when a
list of links has no defect, and `Flow.validate_eq_ok_iff` says the same of a whole flow. In a
valid flow a link is the only one of its identity (`Flow.filter_id_eq_singleton`).
-/

set_option autoImplicit false

namespace FlowGate.Flow

/-- Nothing is repeated after `seen` iff the list repeats nothing and nothing of it was seen. -/
theorem firstRepeated?_eq_none_iff {α : Type} [DecidableEq α] (seen items : List α) :
    firstRepeated? seen items = none ↔ items.Nodup ∧ ∀ item ∈ items, item ∉ seen := by
  induction items generalizing seen with
  | nil => simp [firstRepeated?]
  | cons item rest ih =>
    rw [firstRepeated?]
    by_cases hseen : item ∈ seen
    · simp [hseen]
    · rw [if_neg hseen, ih, List.nodup_cons]
      constructor
      · rintro ⟨hnodup, hrest⟩
        refine ⟨⟨fun hmem ↦ hrest item hmem List.mem_cons_self, hnodup⟩, ?_⟩
        intro other hother
        rcases List.mem_cons.mp hother with rfl | hother
        · exact hseen
        · exact fun hmem ↦ hrest other hother (List.mem_cons_of_mem _ hmem)
      · rintro ⟨⟨hitem, hnodup⟩, hrest⟩
        refine ⟨hnodup, fun other hother hmem ↦ ?_⟩
        rcases List.mem_cons.mp hmem with rfl | hmem
        · exact hitem hother
        · exact hrest other (List.mem_cons_of_mem _ hother) hmem

theorem linkDefect?_eq_none_iff (declared : List String) (seen : List UInt32) (link : Link) :
    linkDefect? declared seen link = none ↔
      link.id ∉ seen ∧ link.source ∈ declared ∧ link.target ∈ declared := by
  unfold linkDefect?
  split_ifs with hseen hsource htarget <;> simp_all

/-- Links have no defect iff their identities are distinct and new and their ends are declared. -/
theorem firstLinkDefect?_eq_none_iff (declared : List String) (seen : List UInt32)
    (links : List Link) :
    firstLinkDefect? declared seen links = none ↔
      firstRepeated? seen (links.map Link.id) = none ∧
        ∀ link ∈ links, link.source ∈ declared ∧ link.target ∈ declared := by
  induction links generalizing seen with
  | nil => simp [firstLinkDefect?, firstRepeated?]
  | cons link rest ih =>
    rw [firstLinkDefect?, Option.or_eq_none_iff, linkDefect?_eq_none_iff, ih, List.map_cons,
      firstRepeated?]
    by_cases hseen : link.id ∈ seen
    · simp [hseen]
    · simp only [hseen, if_false, not_false_eq_true, true_and, List.forall_mem_cons]
      exact and_left_comm

/-- A flow is valid iff no identity is repeated and every link joins declared nodes. -/
theorem validate_eq_ok_iff (flow : Flow) :
    flow.validate = .ok () ↔
      flow.nodeIds.Nodup ∧ (flow.links.map Link.id).Nodup ∧
        ∀ link ∈ flow.links, link.source ∈ flow.nodeIds ∧ link.target ∈ flow.nodeIds := by
  have hdefect : flow.validate = .ok () ↔ flow.defect? = none := by
    unfold validate
    cases flow.defect? <;> simp
  rw [hdefect, defect?, Option.or_eq_none_iff, Option.map_eq_none_iff,
    firstLinkDefect?_eq_none_iff, firstRepeated?_eq_none_iff, firstRepeated?_eq_none_iff]
  simp

/-- A link of a valid flow is the only one of its identity. -/
theorem filter_id_eq_singleton {flow : Flow} (hvalid : flow.validate = .ok ()) {link : Link}
    (hlink : link ∈ flow.links) : (flow.links.filter fun other ↦ other.id = link.id) = [link] := by
  obtain ⟨-, hnodup, -⟩ := flow.validate_eq_ok_iff.mp hvalid
  have hpairwise := List.pairwise_map.mp hnodup
  generalize flow.links = links at hlink hpairwise
  induction links with
  | nil => cases hlink
  | cons head rest ih =>
    obtain ⟨hhead, hrest⟩ := List.pairwise_cons.mp hpairwise
    rcases List.mem_cons.mp hlink with rfl | hlink
    · have hnone : (rest.filter fun other ↦ other.id = link.id) = [] := by
        refine List.filter_eq_nil_iff.mpr ?_
        intro other hother
        simpa using (hhead other hother).symm
      rw [List.filter_cons_of_pos (by simp), hnone]
    · rw [List.filter_cons_of_neg (by simpa using hhead link hlink)]
      exact ih hlink hrest

end FlowGate.Flow

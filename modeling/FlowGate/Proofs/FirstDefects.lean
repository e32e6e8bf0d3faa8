import FlowGate.Proofs.Validity
import Mathlib.Data.List.Nodup
import Mathlib.Logic.ExistsUnique

/-!
# The first defect of a flow

`validate` goes through the nodes and then through the links, and whether it stops at one of them
depends on those before it. `FirstPicked` says of any list where such a search stops, without
searching, and `Flow.FirstDefect` says in these terms which defect a flow is refused for. The two
loops carry the identities of what they have passed, the last one first; the lemmas on the loops
take any such list (`firstRepeated?_eq_some_iff`, `firstLinkDefect?_eq_some_iff`), so the induction
is over what is left.

A flow without a defect is one whose links can be told apart and have declared ends, so that each
link is found by its identity and leaves one node (`validate_first_defect`).
-/

set_option autoImplicit false

namespace FlowGate

/-- The element `item` of a list stands behind `front` and is picked there, and none before it is
picked. Whether an element is picked may depend on those in front of it. -/
structure FirstPicked {α : Type} (picks : List α → α → Prop) (items front : List α) (item : α) :
    Prop where
  place : ∃ back, items = front ++ item :: back
  picked : picks front item
  earlier : ∀ before other after, front = before ++ other :: after → ¬picks before other

/-- The first element is picked, or else the search goes on behind it. -/
theorem firstPicked_cons_iff {α : Type} {picks : List α → α → Prop} {head item : α}
    {rest front : List α} :
    FirstPicked picks (head :: rest) front item ↔
      front = [] ∧ item = head ∧ picks [] head ∨
        ∃ others, front = head :: others ∧ ¬picks [] head ∧
          FirstPicked (fun before ↦ picks (head :: before)) rest others item := by
  constructor
  · rintro ⟨⟨back, hplace⟩, hpicked, hearlier⟩
    cases front with
    | nil =>
      obtain ⟨rfl, rfl⟩ := List.cons.inj hplace
      exact .inl ⟨rfl, rfl, hpicked⟩
    | cons first others =>
      obtain ⟨rfl, hrest⟩ := List.cons.inj hplace
      refine .inr ⟨others, rfl, hearlier [] head others rfl, ⟨back, hrest⟩, hpicked, ?_⟩
      intro before other after hothers
      exact hearlier (head :: before) other after (congrArg (head :: ·) hothers)
  · rintro (⟨rfl, rfl, hpicked⟩ | ⟨others, rfl, hhead, ⟨back, hplace⟩, hpicked, hearlier⟩)
    · exact ⟨⟨rest, rfl⟩, hpicked, fun before other after h ↦ by simp at h⟩
    · refine ⟨⟨back, congrArg (head :: ·) hplace⟩, hpicked, fun before other after hfront ↦ ?_⟩
      cases before with
      | nil =>
        obtain ⟨rfl, -⟩ := List.cons.inj hfront
        exact hhead
      | cons first before =>
        obtain ⟨rfl, hothers⟩ := List.cons.inj hfront
        exact hearlier before other after hothers

/-- Nothing is picked in an empty list. -/
theorem not_firstPicked_nil {α : Type} {picks : List α → α → Prop} {front : List α} {item : α} :
    ¬FirstPicked picks [] front item := by
  rintro ⟨⟨back, hplace⟩, -, -⟩
  simp at hplace

namespace Flow

/-! ### What is wrong -/

/-- What is wrong with a link that comes behind others: it has the identity of one of them, or else
the node that it leaves is not declared, or else the node that it goes to is not. -/
inductive LinkDefect (flow : Flow) (front : List Link) (link : Link) : FlowDefect → Prop where
  | repeated (hid : link.id ∈ front.map Link.id) :
      LinkDefect flow front link (.duplicateLink link.id)
  | unknownSource (hid : link.id ∉ front.map Link.id) (hsource : link.source ∉ flow.nodeIds) :
      LinkDefect flow front link (.unknownNode link.id link.source)
  | unknownTarget (hid : link.id ∉ front.map Link.id) (hsource : link.source ∈ flow.nodeIds)
      (htarget : link.target ∉ flow.nodeIds) :
      LinkDefect flow front link (.unknownNode link.id link.target)

/-- The link has the identity of one in front of it or an end that is not declared. -/
def Faulty (flow : Flow) (front : List Link) (link : Link) : Prop :=
  link.id ∈ front.map Link.id ∨ link.source ∉ flow.nodeIds ∨ link.target ∉ flow.nodeIds

/-- What a flow is refused for: the first node with the identity of an earlier one, and if there is
none what is wrong with the first faulty link. -/
inductive FirstDefect (flow : Flow) : FlowDefect → Prop where
  | node {front : List String} {id : String}
      (hfirst : FirstPicked (fun before other ↦ other ∈ before) flow.nodeIds front id) :
      FirstDefect flow (.duplicateNode id)
  | link {front : List Link} {link : Link} {defect : FlowDefect} (hnodes : flow.nodeIds.Nodup)
      (hfirst : FirstPicked flow.Faulty flow.links front link)
      (hdefect : flow.LinkDefect front link defect) : FirstDefect flow defect

/-! ### The two loops -/

/-- The search for a repetition behind `seen` stops at the first element that was there before. -/
theorem firstRepeated?_eq_some_iff {α : Type} [DecidableEq α] (seen items : List α) (item : α) :
    firstRepeated? seen items = some item ↔
      ∃ front,
        FirstPicked (fun before other ↦ other ∈ before.reverse ++ seen) items front item := by
  induction items generalizing seen with
  | nil => simp [firstRepeated?, not_firstPicked_nil]
  | cons head rest ih =>
    simp only [firstRepeated?, firstPicked_cons_iff, List.reverse_nil, List.nil_append,
      List.reverse_cons, List.append_assoc, List.singleton_append]
    by_cases hseen : head ∈ seen
    · simp [hseen, eq_comm]
    · simp [hseen, ih]

/-- The search through links behind those of the identities `seen` stops at the first link with a
defect. -/
theorem firstLinkDefect?_eq_some_iff (declared : List String) (seen : List UInt32)
    (links : List Link) (defect : FlowDefect) :
    firstLinkDefect? declared seen links = some defect ↔
      ∃ link front,
        FirstPicked (fun before other ↦
          linkDefect? declared ((before.map Link.id).reverse ++ seen) other ≠ none)
          links front link ∧
        linkDefect? declared ((front.map Link.id).reverse ++ seen) link = some defect := by
  induction links generalizing seen with
  | nil => simp [firstLinkDefect?, not_firstPicked_nil]
  | cons head rest ih =>
    simp only [firstLinkDefect?, firstPicked_cons_iff]
    cases hhead : linkDefect? declared seen head with
    | some found => simp [hhead]
    | none => simp [hhead, ih]

theorem linkDefect?_eq_some_iff (flow : Flow) (front : List Link) (link : Link)
    (defect : FlowDefect) :
    linkDefect? flow.nodeIds ((front.map Link.id).reverse ++ []) link = some defect ↔
      flow.LinkDefect front link defect := by
  simp only [List.append_nil, linkDefect?, List.mem_reverse]
  constructor
  · intro h
    by_cases hid : link.id ∈ front.map Link.id
    · rw [if_pos hid] at h
      cases h
      exact .repeated hid
    · rw [if_neg hid] at h
      split at h
      · rename_i hsource
        cases h
        exact .unknownSource hid hsource
      · rename_i hsource
        split at h
        · rename_i htarget
          cases h
          exact .unknownTarget hid (not_not.mp hsource) htarget
        · cases h
  · rintro (hid | ⟨hid, hsource⟩ | ⟨hid, hsource, htarget⟩) <;> simp [*]

/-- A link has a defect behind others iff it is faulty there. -/
theorem linkDefect?_ne_none_iff (flow : Flow) (front : List Link) (link : Link) :
    linkDefect? flow.nodeIds ((front.map Link.id).reverse ++ []) link ≠ none ↔
      flow.Faulty front link := by
  rw [ne_eq, linkDefect?_eq_none_iff, List.append_nil, List.mem_reverse, Faulty]
  tauto

/-! ### Flows -/

/-- A flow is refused for its first defect. -/
theorem validate_eq_error_iff (flow : Flow) (defect : FlowDefect) :
    flow.validate = .error defect ↔ flow.FirstDefect defect := by
  have hdefect : flow.validate = .error defect ↔ flow.defect? = some defect := by
    unfold validate
    cases flow.defect? <;> simp
  have hnodes := firstRepeated?_eq_some_iff [] flow.nodeIds
  have hlinks := firstLinkDefect?_eq_some_iff flow.nodeIds [] flow.links defect
  simp only [linkDefect?_eq_some_iff, linkDefect?_ne_none_iff] at hlinks
  simp only [List.append_nil, List.mem_reverse] at hnodes
  rw [hdefect, defect?]
  cases hrepeated : firstRepeated? [] flow.nodeIds with
  | some id =>
    obtain ⟨front, hfirst⟩ := (hnodes id).mp hrepeated
    have hnodup : ¬flow.nodeIds.Nodup := by
      intro hnodup
      rw [(firstRepeated?_eq_none_iff [] flow.nodeIds).mpr ⟨hnodup, by simp⟩] at hrepeated
      cases hrepeated
    constructor
    · intro h
      cases h
      exact .node hfirst
    · rintro (hother | ⟨hnodes, -, -⟩)
      · have hsame := (hnodes _).mpr ⟨_, hother⟩
        rw [hrepeated] at hsame
        cases hsame
        rfl
      · exact absurd hnodes hnodup
  | none =>
    obtain ⟨hnodup, -⟩ := (firstRepeated?_eq_none_iff [] flow.nodeIds).mp hrepeated
    constructor
    · intro h
      obtain ⟨link, front, hfirst, hlink⟩ := hlinks.mp h
      exact .link hnodup hfirst hlink
    · rintro (hother | ⟨-, hfirst, hlink⟩)
      · have hsome := (hnodes _).mpr ⟨_, hother⟩
        rw [hrepeated] at hsome
        cases hsome
      · exact hlinks.mpr ⟨_, _, hfirst, hlink⟩

/-- In a valid flow a link is found by its identity. -/
theorem link?_eq_some {flow : Flow} (hvalid : flow.validate = .ok ()) {link : Link}
    (hlink : link ∈ flow.links) : flow.link? link.id = some link := by
  rw [link?, ← List.head?_filter, filter_id_eq_singleton hvalid hlink, List.head?_singleton]

/-- In a valid flow a link leaves exactly one node. -/
theorem existsUnique_outgoing {flow : Flow} (hvalid : flow.validate = .ok ()) {link : Link}
    (hlink : link ∈ flow.links) :
    ∃! node, node ∈ flow.nodes ∧ link ∈ flow.outgoing node.id := by
  obtain ⟨hnodup, -, hends⟩ := flow.validate_eq_ok_iff.mp hvalid
  have hleaves : ∀ node : FlowNode, link ∈ flow.outgoing node.id ↔ link.source = node.id := by
    simp [outgoing, hlink]
  obtain ⟨node, hnode, hid⟩ := List.mem_map.mp (hends link hlink).1
  refine ⟨node, ⟨hnode, (hleaves node).mpr hid.symm⟩, ?_⟩
  rintro other ⟨hother, hmem⟩
  refine List.inj_on_of_nodup_map hnodup hother hnode ?_
  rw [hid, (hleaves other).mp hmem]

/-- A flow is accepted iff no identity is repeated among its nodes or among its links and the ends
of all links are declared. A flow that is not accepted is refused for its first defect: the first
node with the identity of an earlier one, and if there is none what is wrong with the first link
that repeats an identity or has an end that is not declared. Each link of an accepted flow is found
by its identity and leaves exactly one declared node. -/
theorem validate_first_defect (flow : Flow) :
    (flow.validate = .ok () ↔
      flow.nodeIds.Nodup ∧ (flow.links.map Link.id).Nodup ∧
        ∀ link ∈ flow.links, link.source ∈ flow.nodeIds ∧ link.target ∈ flow.nodeIds) ∧
    (∀ defect, flow.validate = .error defect ↔ flow.FirstDefect defect) ∧
    (flow.validate = .ok () → ∀ link ∈ flow.links,
      flow.link? link.id = some link ∧
        ∃! node, node ∈ flow.nodes ∧ link ∈ flow.outgoing node.id) := by
  refine ⟨flow.validate_eq_ok_iff, flow.validate_eq_error_iff, fun hvalid link hlink ↦ ?_⟩
  exact ⟨link?_eq_some hvalid hlink, existsUnique_outgoing hvalid hlink⟩

/-- A way there and one back. -/
def returnFlow : Flow :=
  ⟨"returns", "", [⟨"shop", ""⟩, ⟨"home", ""⟩],
    [⟨7, "shop", "home", .dependency, none⟩, ⟨3, "home", "shop", .expression, some "$unwanted"⟩]⟩

/-- The second link has a target that is not declared, the third one the identity of the first. -/
def strayFlow : Flow :=
  ⟨"returns", "", [⟨"shop", ""⟩, ⟨"home", ""⟩],
    [⟨7, "shop", "home", .dependency, none⟩, ⟨3, "home", "depot", .dependency, none⟩,
      ⟨7, "home", "shop", .dependency, none⟩]⟩

theorem validate_first_defect_strayFlow :
    returnFlow.validate = .ok () ∧
      returnFlow.link? 3 = some ⟨3, "home", "shop", .expression, some "$unwanted"⟩ ∧
      strayFlow.FirstDefect (.unknownNode 3 "depot") ∧
      strayFlow.validate = .error (.unknownNode 3 "depot") := by
  obtain ⟨haccepted, -, hlinks⟩ := validate_first_defect returnFlow
  have hvalid := haccepted.mpr (by decide)
  have hlink : (⟨3, "home", "shop", .expression, some "$unwanted"⟩ : Link) ∈ returnFlow.links := by
    decide
  obtain ⟨-, hrefused, -⟩ := validate_first_defect strayFlow
  have hpicked : FirstPicked strayFlow.Faulty strayFlow.links
      [⟨7, "shop", "home", .dependency, none⟩] ⟨3, "home", "depot", .dependency, none⟩ := by
    refine ⟨⟨_, rfl⟩, .inr (.inr (by decide)), ?_⟩
    intro before other after hfront
    obtain ⟨rfl, hother⟩ | ⟨rest, -, hrest⟩ := List.append_eq_cons_iff.mp hfront.symm
    · obtain ⟨rfl, -⟩ := List.cons.inj hother
      rintro (hid | hsource | htarget)
      · cases hid
      · exact hsource (by decide)
      · exact htarget (by decide)
    · simp at hrest
  have hfirst : strayFlow.FirstDefect (.unknownNode 3 "depot") :=
    .link (by decide) hpicked (.unknownTarget (by decide) (by decide) (by decide))
  exact ⟨hvalid, (hlinks hvalid _ hlink).1, hfirst, (hrefused _).mpr hfirst⟩

end Flow

end FlowGate

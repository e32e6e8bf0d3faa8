import FlowGate.Proofs.AttributeContext
import FlowGate.Proofs.RegistryEntries
import FlowGate.Proofs.Validity
import Mathlib.Data.List.TakeWhile

/-!
# Reading one link by itself

`Link.Fires` reads a link without a registry: its text, the tree that the text compiles to, and the
value of that tree where the attributes of the text stand for what the scope holds. A gate over the
compiled links of a valid flow decides each link as this reading does (`decide_build_iff_fires`),
so no other link has a part in the decision. Identities are what makes it so: the registry holds one
entry for each identity, and in a valid flow an identity has one link.
-/

set_option autoImplicit false

namespace FlowGate

open OrderedMap

/-- Whether a link fires in a scope, read from the link alone. A dependency link does. Any other
link has to have a text that is more than blanks, compiles, and is true under the values of its
attributes. -/
def Link.Fires (link : Link) (scope : Scope) : Prop :=
  link.type = .dependency ∨
    (Text.trim link.text.toList ≠ [] ∧
      ∃ expr, Expr.compile (translate link.text).rewritten = .ok expr ∧
        expr.eval (attributeValues (translate link.text).attributes scope) = .ok (.bool true))

/-- Nothing is left after trimming iff there were only blanks. -/
theorem Text.trim_eq_nil_iff (cs : List Char) : trim cs = [] ↔ ∀ c ∈ cs, isBlank c = true := by
  rw [trim, List.reverse_eq_nil_iff, List.dropWhile_eq_nil_iff]
  simp only [List.mem_reverse]
  constructor
  · intro h c hc
    rw [← List.takeWhile_append_dropWhile (p := isBlank) (l := cs)] at hc
    rcases List.mem_append.mp hc with hc | hc
    · exact List.mem_takeWhile_imp hc
    · exact h c hc
  · intro h c hc
    exact h c ((List.dropWhile_suffix isBlank).subset hc)

/-- An expression link is guarded iff trimming its text leaves something. -/
theorem Link.isGuarded_iff (link : Link) :
    link.isGuarded = true ↔ link.type = .expression ∧ Text.trim link.text.toList ≠ [] := by
  unfold isGuarded
  rw [Bool.and_eq_true, decide_eq_true_iff, Bool.not_eq_true', ← Bool.not_eq_true, List.all_eq_true,
    ne_eq, Text.trim_eq_nil_iff]

namespace Registry

/-- The verdict on a value is that the link fires iff the value is true. -/
theorem verdict_eq_ok_true_iff (id : UInt32) (result : Except EvalError Value) :
    verdict id result = .ok true ↔ result = .ok (.bool true) := by
  unfold verdict
  cases result with
  | error cause => simp
  | ok value => cases value <;> simp [Value.asBool?]

/-- A link is known to fire iff the attempt to decide it says so. -/
theorem value_decide_eq_true_iff (registry : Registry) (scope : Scope) (link : Link) :
    (registry.decide scope link).value = true ↔
      (registry.tryDecide scope link).value = .ok true := by
  rw [decide, Logged.value_bind]
  cases (registry.tryDecide scope link).value <;> simp

/-- A registry lets a link fire iff it is a dependency link or its entry evaluates to true. -/
theorem value_tryDecide_eq_ok_true_iff (registry : Registry) (scope : Scope) (link : Link) :
    (registry.tryDecide scope link).value = .ok true ↔
      link.type = .dependency ∨
        (link.type = .expression ∧ ∃ entry, Entries.get? link.id registry = some entry ∧
          entry.expr.eval (attributeValues entry.attributes scope) = .ok (.bool true)) := by
  unfold tryDecide
  cases link.type with
  | dependency => simp
  | expression =>
    cases Entries.get? link.id registry with
    | none => simp
    | some entry => simp [verdict_eq_ok_true_iff, environment_contextOf]

/-- In the registry of a valid flow each link finds its own entry. -/
theorem get?_build_id {flow : Flow} (hvalid : flow.validate = .ok ()) {link : Link}
    (hlink : link ∈ flow.links) :
    Entries.get? link.id (build flow.links).value = link.entry? := by
  rw [get?_build, Flow.filter_id_eq_singleton hvalid hlink, List.filterMap_cons, List.filterMap_nil]
  cases link.entry? <;> rfl

/-- A link that is no dependency link fires iff its own entry evaluates to true. -/
theorem fires_iff_entry {link : Link} (htype : ¬link.type = .dependency) (scope : Scope) :
    link.Fires scope ↔
      link.type = .expression ∧ ∃ entry, link.entry? = some entry ∧
        entry.expr.eval (attributeValues entry.attributes scope) = .ok (.bool true) := by
  have hexpression : link.type = .expression := by
    cases hlink : link.type with
    | dependency => exact absurd hlink htype
    | expression => rfl
  rw [Link.Fires, or_iff_right htype]
  constructor
  · rintro ⟨htext, expr, hcompile, htrue⟩
    let entry : Entry := ⟨(translate link.text).attributes, (translate link.text).rewritten, expr⟩
    exact ⟨hexpression, entry, (link.entry?_eq_some_iff entry).mpr
      ⟨link.isGuarded_iff.mpr ⟨hexpression, htext⟩, rfl, rfl, hcompile⟩, htrue⟩
  · rintro ⟨-, entry, hentry, htrue⟩
    obtain ⟨hguarded, hattributes, -, hcompile⟩ := (link.entry?_eq_some_iff entry).mp hentry
    rw [hattributes] at htrue
    exact ⟨(link.isGuarded_iff.mp hguarded).2, entry.expr, hcompile, htrue⟩

/-- The registry of a valid flow decides each of its links as the link reads by itself. -/
theorem value_decide_build_eq_true_iff {flow : Flow} (hvalid : flow.validate = .ok ())
    {link : Link} (hlink : link ∈ flow.links) (scope : Scope) :
    ((build flow.links).value.decide scope link).value = true ↔ link.Fires scope := by
  rw [value_decide_eq_true_iff, value_tryDecide_eq_ok_true_iff, get?_build_id hvalid hlink]
  by_cases htype : link.type = .dependency
  · simp [htype, Link.Fires]
  · rw [or_iff_right htype, fires_iff_entry htype]

/-- A gate compiled once from a valid flow decides each link as the link reads by itself, and so
alike in every valid flow that has the link. -/
theorem decide_build_iff_fires (flow : Flow) (hvalid : flow.validate = .ok ()) (link : Link)
    (hlink : link ∈ flow.links) (scope : Scope) :
    (((build flow.links).value.decide scope link).value = true ↔ link.Fires scope) ∧
      ∀ other : Flow, other.validate = .ok () → link ∈ other.links →
        ((build other.links).value.decide scope link).value =
          ((build flow.links).value.decide scope link).value := by
  have hfires := value_decide_build_eq_true_iff hvalid hlink scope
  refine ⟨hfires, fun other hother hmem ↦ ?_⟩
  rw [Bool.eq_iff_iff, hfires]
  exact value_decide_build_eq_true_iff hother hmem scope

/-- An expression link over a nested attribute. -/
def totalLink : Link :=
  ⟨1, "open", "shipped", .expression, some "$order.total > 10 && !$held"⟩

/-- Two nodes joined by a dependency link, by `totalLink` and by an expression link without a
text. -/
def parallelLinks : Flow :=
  ⟨"orders", "", [⟨"open", ""⟩, ⟨"shipped", ""⟩],
    [⟨3, "open", "shipped", .dependency, none⟩, totalLink,
      ⟨2, "shipped", "open", .expression, none⟩]⟩

/-- The same nodes joined by `totalLink` alone. -/
def totalFlow : Flow :=
  ⟨"totals", "", [⟨"open", ""⟩, ⟨"shipped", ""⟩], [totalLink]⟩

/-- An order of twenty that may be held. -/
def orderOfTwenty (held : Bool) : RunScope :=
  (RunScope.empty.set "order" (.mapping (OrderedMap.ofList [("total", .token "20")]))).set "held"
    (.bool held)

set_option maxRecDepth 40000 in
theorem value_decide_totalLink : ∀ held : Bool,
    ((build parallelLinks.links).value.decide (orderOfTwenty held).get? totalLink).value =
      !held := by
  decide +kernel

/-- The link fires in the one flow and in the other while the order is not held, and not when it
is. -/
theorem decide_build_iff_fires_parallelLinks :
    parallelLinks.validate = .ok () ∧ totalLink ∈ parallelLinks.links ∧
      totalLink.Fires (orderOfTwenty false).get? ∧ ¬totalLink.Fires (orderOfTwenty true).get? ∧
      ((build totalFlow.links).value.decide (orderOfTwenty false).get? totalLink).value = true := by
  have hvalid : parallelLinks.validate = .ok () := by decide
  have hlink : totalLink ∈ parallelLinks.links := by decide
  have hreading := fun held ↦
    decide_build_iff_fires parallelLinks hvalid totalLink hlink (orderOfTwenty held).get?
  have hdecided := value_decide_totalLink false
  refine ⟨hvalid, hlink, (hreading false).1.mp hdecided, fun hfires ↦ ?_, ?_⟩
  · exact Bool.noConfusion ((value_decide_totalLink true).symm.trans ((hreading true).1.mpr hfires))
  · exact ((hreading false).2 totalFlow rfl List.mem_cons_self).trans hdecided

end Registry

end FlowGate

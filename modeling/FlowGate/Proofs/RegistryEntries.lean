import FlowGate.Flow.Registry

/-!
# What a registry holds

A registry is built by entering one link after another. Entering a link changes at most the entry
of its own identity (`Registry.get?_enter`), so in the end an identity has the entry of the last of
its links that compiles (`Registry.get?_build`).
-/

set_option autoImplicit false

namespace FlowGate

open OrderedMap

/-- The entry that a link is compiled to, if it is guarded and compiles. -/
def Link.entry? (link : Link) : Option Registry.Entry :=
  match link.compile.value with
  | .ok entry => entry
  | .error _ => none

/-- A link has an entry iff it is guarded and its text with the references replaced compiles. -/
theorem Link.entry?_eq_some_iff (link : Link) (entry : Registry.Entry) :
    link.entry? = some entry ↔
      link.isGuarded = true ∧ entry.attributes = (translate link.text).attributes ∧
        entry.source = (translate link.text).rewritten ∧
        Expr.compile (translate link.text).rewritten = .ok entry.expr := by
  obtain ⟨attributes, source, expr⟩ := entry
  unfold entry? compile
  by_cases hguarded : link.isGuarded = true
  · rw [if_pos hguarded]
    simp only [Logged.value_bind]
    cases Expr.compile (translate link.text).rewritten with
    | error cause => simp
    | ok tree =>
      simp only [Logged.value_pure, hguarded, true_and, Option.some.injEq,
        Registry.Entry.mk.injEq, Except.ok.injEq]
      constructor
      · rintro ⟨rfl, rfl, rfl⟩
        exact ⟨rfl, rfl, rfl⟩
      · rintro ⟨rfl, rfl, rfl⟩
        exact ⟨rfl, rfl, rfl⟩
  · rw [if_neg hguarded]
    simp [hguarded]

namespace Registry

/-- Entering a link puts its entry, if it has one, in the place of its identity. -/
theorem value_enter (registry : Registry) (link : Link) :
    (enter registry link).value =
      match link.entry? with
      | some entry => OrderedMap.insert registry link.id entry
      | none => registry := by
  unfold enter Link.entry?
  rw [Logged.value_bind]
  match link.compile.value with
  | .error failure => rfl
  | .ok none => rfl
  | .ok (some entry) =>
    by_cases hcontains : OrderedMap.contains registry link.id = true <;> simp [hcontains]

/-- Entering a link leaves the entries of other identities as they were. -/
theorem get?_enter (registry : Registry) (link : Link) (id : UInt32) :
    Entries.get? id (enter registry link).value =
      if link.id = id then link.entry?.or (Entries.get? id registry)
      else Entries.get? id registry := by
  rw [value_enter]
  cases link.entry? with
  | none => simp
  | some entry =>
    simp only [get?_insert, Option.some_or]
    by_cases hid : link.id = id
    · rw [if_pos hid, if_pos hid.symm]
    · rw [if_neg hid, if_neg (Ne.symm hid)]

/-- Entering links one after another leaves, under each identity, the entry of the last of its
links that has one, and else what was there before. -/
theorem get?_foldlM_enter (links : List Link) (registry : Registry) (id : UInt32) :
    Entries.get? id (links.foldlM enter registry).value =
      (((links.filter fun link ↦ link.id = id).filterMap Link.entry?).getLast?).or
        (Entries.get? id registry) := by
  induction links generalizing registry with
  | nil => simp
  | cons link rest ih =>
    rw [List.foldlM_cons, Logged.value_bind, ih, get?_enter]
    by_cases hid : link.id = id
    · rw [if_pos hid, List.filter_cons_of_pos (by simpa using hid), List.filterMap_cons]
      cases link.entry? with
      | none => rw [Option.none_or]
      | some entry =>
        rw [List.getLast?_cons]
        cases ((rest.filter fun link ↦ link.id = id).filterMap Link.entry?).getLast? <;> rfl
    · rw [if_neg hid, List.filter_cons_of_neg (by simpa using hid)]

/-- An identity has the entry of the last of its links that compiles. -/
theorem get?_build (links : List Link) (id : UInt32) :
    Entries.get? id (build links).value =
      ((links.filter fun link ↦ link.id = id).filterMap Link.entry?).getLast? := by
  rw [build, get?_foldlM_enter, get?_empty, Option.or_none]

end Registry

end FlowGate

/-!
# Outcomes in sequence

What doing one thing after another gives where each may fail: the first error, or else the outcome
of the last thing.
-/

set_option autoImplicit false

namespace FlowGate

universe u v

variable {ε : Type u} {α β : Type v}

@[simp]
theorem ok_bind (a : α) (next : α → Except ε β) : (Except.ok a >>= next) = next a :=
  rfl

@[simp]
theorem error_bind (cause : ε) (next : α → Except ε β) :
    ((Except.error cause : Except ε α) >>= next) = .error cause :=
  rfl

/-- Two things in sequence succeed iff the first one does and then the second. -/
theorem bind_eq_ok_iff {first : Except ε α} {next : α → Except ε β} {b : β} :
    (first >>= next) = .ok b ↔ ∃ a, first = .ok a ∧ next a = .ok b := by
  cases first with
  | error cause => simp
  | ok a => simp

/-- Two things in sequence fail iff the first one does or else the second. -/
theorem bind_eq_error_iff {first : Except ε α} {next : α → Except ε β} {cause : ε} :
    (first >>= next) = .error cause ↔
      first = .error cause ∨ ∃ a, first = .ok a ∧ next a = .error cause := by
  cases first with
  | error other => simp
  | ok a => simp

/-- A run fails at its first step that does. -/
theorem exists_of_foldlM_eq_error {f : β → α → Except ε β} {init : β} {input : List α} {cause : ε}
    (h : input.foldlM f init = .error cause) :
    ∃ before next after state, input = before ++ next :: after ∧
      before.foldlM f init = .ok state ∧ f state next = .error cause := by
  induction input generalizing init with
  | nil => cases h
  | cons next rest ih =>
    rw [List.foldlM_cons] at h
    rcases bind_eq_error_iff.mp h with hstep | ⟨state, hstep, hrest⟩
    · exact ⟨[], next, rest, init, rfl, rfl, hstep⟩
    · obtain ⟨before, later, after, last, rfl, hrun, hlast⟩ := ih hrest
      refine ⟨next :: before, later, after, last, rfl, ?_, hlast⟩
      rw [List.foldlM_cons, hstep, ok_bind, hrun]

theorem map_eq_ok_iff {first : Except ε α} {f : α → β} {b : β} :
    first.map f = .ok b ↔ ∃ a, first = .ok a ∧ f a = b := by
  cases first with
  | error cause => simp [Except.map]
  | ok a => simp [Except.map]

theorem map_eq_error_iff {first : Except ε α} {f : α → β} {cause : ε} :
    first.map f = .error cause ↔ first = .error cause := by
  cases first <;> simp [Except.map]

end FlowGate

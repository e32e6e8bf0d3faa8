import FlowGate.Flow.Session
import FlowGate.Proofs.Outcomes
import FlowGate.Scope.Schema
import Mathlib.Data.Fin.Tuple.Basic

/-!
# Histories of scopes

A `ScopeHistory` is a course of making scopes, setting and removing, over any number of scopes that
it numbers as they are made. `ScopeHistory.scopes` carries it out. What a scope should hold is read
off the history: `own` is the value that was put under a name last and not removed since, and
`fromParent` what its parent answered when it was frozen.

`RunScope.Holds` says that the layers of a scope are such values over such a parent. Each operation
keeps it, so the scopes of a history hold what the history says (`holds_scopes`): they answer as
their own values laid over their parents do, and their JSON forms are objects of these answers
(`scopes_answer_history`).
-/

set_option autoImplicit false

namespace FlowGate

open OrderedMap

/-- A course of events after which there are `n` scopes. A scope is made empty, from a schema, as an
empty child over a frozen copy of another scope, or as a copy of another. -/
inductive ScopeHistory : Nat → Type where
  | start : ScopeHistory 0
  | create {n : Nat} (earlier : ScopeHistory n) : ScopeHistory (n + 1)
  | declare {n : Nat} (earlier : ScopeHistory n) (schema : Schema) (scope : RunScope)
      (accepted : RunScope.ofSchema? schema = .ok scope) : ScopeHistory (n + 1)
  | descend {n : Nat} (earlier : ScopeHistory n) (parent : Fin n) : ScopeHistory (n + 1)
  | copy {n : Nat} (earlier : ScopeHistory n) (original : Fin n) : ScopeHistory (n + 1)
  | set {n : Nat} (earlier : ScopeHistory n) (number : Fin n) (name : String) (value : Value) :
      ScopeHistory n
  | remove {n : Nat} (earlier : ScopeHistory n) (number : Fin n) (name : String) : ScopeHistory n

/-- The value that a schema gives an attribute to start with. -/
def Schema.starting? (schema : Schema) (name : String) : Option Value :=
  (Entries.get? name schema).bind fun declaration ↦ (declaration.start name).toOption

namespace ScopeHistory

/-- What is numbered up to `n`, and one thing more. -/
def joined {α : Type} {n : Nat} (old : Fin n → α) (last : α) : Fin (n + 1) → α :=
  Fin.snoc (α := fun _ ↦ α) old last

/-- The scopes that a history comes to. -/
def scopes : {n : Nat} → ScopeHistory n → Fin n → RunScope
  | _, start => Fin.elim0
  | _, create earlier => joined earlier.scopes .empty
  | _, declare earlier _ scope _ => joined earlier.scopes scope
  | _, descend earlier parent => joined earlier.scopes (earlier.scopes parent).child
  | _, copy earlier original => joined earlier.scopes (earlier.scopes original)
  | _, set earlier number name value =>
    Function.update earlier.scopes number ((earlier.scopes number).set name value)
  | _, remove earlier number name =>
    Function.update earlier.scopes number ((earlier.scopes number).remove name)

/-- The value that a scope has of its own under a name: the one set last, or put there when the
scope was made, if it was not removed since. -/
def own : {n : Nat} → ScopeHistory n → Fin n → String → Option Value
  | _, start => Fin.elim0
  | _, create earlier => joined earlier.own fun _ ↦ none
  | _, declare earlier schema _ _ => joined earlier.own schema.starting?
  | _, descend earlier _ => joined earlier.own fun _ ↦ none
  | _, copy earlier original => joined earlier.own (earlier.own original)
  | _, set earlier number name value => fun other asked ↦
    if other = number ∧ asked = name then some value else earlier.own other asked
  | _, remove earlier number name => fun other asked ↦
    if other = number ∧ asked = name then none else earlier.own other asked

/-- What the parent of a scope answers. It was frozen when the scope was made, and a copy has the
parent of its original. -/
def fromParent : {n : Nat} → ScopeHistory n → Fin n → String → Option Value
  | _, start => Fin.elim0
  | _, create earlier => joined earlier.fromParent fun _ ↦ none
  | _, declare earlier _ _ _ => joined earlier.fromParent fun _ ↦ none
  | _, descend earlier parent =>
    joined earlier.fromParent fun name ↦
      (earlier.own parent name).or (earlier.fromParent parent name)
  | _, copy earlier original => joined earlier.fromParent (earlier.fromParent original)
  | _, set earlier _ _ _ => earlier.fromParent
  | _, remove earlier _ _ => earlier.fromParent

@[simp]
theorem own_set {n : Nat} (history : ScopeHistory n) (number : Fin n) (name : String)
    (value : Value) (other : Fin n) (asked : String) :
    (history.set number name value).own other asked =
      if other = number ∧ asked = name then some value else history.own other asked :=
  rfl

@[simp]
theorem own_remove {n : Nat} (history : ScopeHistory n) (number : Fin n) (name : String)
    (other : Fin n) (asked : String) :
    (history.remove number name).own other asked =
      if other = number ∧ asked = name then none else history.own other asked :=
  rfl

end ScopeHistory

/-! ### Layers -/

/-- Starting values are those of the first declaration and of the rest. -/
theorem startingValues_cons_eq_ok_iff {low : Option String} {name : String}
    {above : ∀ bound ∈ low, bound < name} {declaration : Declaration}
    {rest : Entries String Declaration (some name)} {values : Entries String Value low} :
    startingValues (.cons name above declaration rest) = .ok values ↔
      ∃ value others, declaration.start name = .ok value ∧ startingValues rest = .ok others ∧
        values = .cons name above value others := by
  simp only [startingValues, bind_eq_ok_iff, Except.ok.injEq]
  constructor
  · rintro ⟨value, hvalue, others, hothers, rfl⟩
    exact ⟨value, others, hvalue, hothers, rfl⟩
  · rintro ⟨value, others, hvalue, hothers, rfl⟩
    exact ⟨value, hvalue, others, hothers, rfl⟩

/-- The values of an accepted schema are those that its declarations start with. -/
theorem get?_startingValues {low : Option String} {declarations : Entries String Declaration low}
    {values : Entries String Value low} (h : startingValues declarations = .ok values)
    (name : String) :
    values.get? name = (declarations.get? name).bind fun declaration ↦
      (declaration.start name).toOption := by
  induction declarations with
  | nil =>
    obtain rfl := Except.ok.inj h
    rfl
  | cons head above declaration rest ih =>
    obtain ⟨value, others, hvalue, hothers, rfl⟩ := startingValues_cons_eq_ok_iff.mp h
    rw [Entries.get?, Entries.get?, ih hothers]
    by_cases hname : name = head
    · subst hname
      simp [hvalue, Except.toOption]
    · simp [hname]

/-- A JSON object of values has the JSON form of each of them. -/
theorem Value.toJsonEntries_eq_map {low : Option String} (entries : Entries String Value low) :
    Value.toJsonEntries entries = entries.map Value.toJson := by
  induction entries with
  | nil => rfl
  | cons key above value rest ih => rw [Value.toJsonEntries, ih, Entries.map]

namespace RunScope

/-- What a scope has under a name in the layers below its own. -/
def inherited? (scope : RunScope) (name : String) : Option Value :=
  scope.inherited.findSome? fun layer ↦ Entries.get? name layer

/-- A scope answers with its own value, and else with what it inherits. -/
theorem get?_eq (scope : RunScope) (name : String) :
    scope.get? name = (Entries.get? name scope.own).or (scope.inherited? name) := by
  rw [get?, inherited?, List.findSome?_cons]
  cases Entries.get? name scope.own <;> rfl

/-- Layers that are merged from the lowest up have under a name what the topmost of them has. -/
theorem get?_foldr_overlay (layers : List (OrderedMap String Value)) (name : String) :
    Entries.get? name
        (layers.foldr (fun layer lower ↦ OrderedMap.overlay lower layer) OrderedMap.empty) =
      layers.findSome? fun layer ↦ Entries.get? name layer := by
  induction layers with
  | nil => rfl
  | cons layer rest ih =>
    rw [List.foldr_cons, get?_overlay, ih, List.findSome?_cons]
    cases Entries.get? name layer <;> rfl

/-- The merged layers answer as the scope does. -/
theorem get?_flatten (scope : RunScope) (name : String) :
    Entries.get? name scope.flatten = scope.get? name := by
  rw [flatten, get?_overlay, get?_foldr_overlay, get?_eq, inherited?]

/-- The JSON form of a scope is an object of the JSON forms of its answers. -/
theorem exists_toJson_eq (scope : RunScope) :
    ∃ fields, scope.toJson = .object fields ∧
      ∀ name, Entries.get? name fields = (scope.get? name).map Value.toJson := by
  refine ⟨Value.toJsonEntries scope.flatten, rfl, fun name ↦ ?_⟩
  rw [Value.toJsonEntries_eq_map, get?_map, get?_flatten]

/-- A scope has these values of its own and a parent with these answers. -/
structure Holds (scope : RunScope) (own parent : String → Option Value) : Prop where
  own_eq : ∀ name, Entries.get? name scope.own = own name
  inherited_eq : ∀ name, scope.inherited? name = parent name

section Holds

variable {scope : RunScope} {own parent : String → Option Value}

theorem Holds.get?_eq (h : scope.Holds own parent) (name : String) :
    scope.get? name = (own name).or (parent name) := by
  rw [RunScope.get?_eq, h.own_eq, h.inherited_eq]

theorem holds_empty : empty.Holds (fun _ ↦ none) (fun _ ↦ none) :=
  ⟨fun _ ↦ rfl, fun _ ↦ rfl⟩

theorem holds_of_schema {schema : Schema} (h : ofSchema? schema = .ok scope) :
    scope.Holds schema.starting? (fun _ ↦ none) := by
  obtain ⟨values, hvalues, rfl⟩ := map_eq_ok_iff.mp h
  exact ⟨get?_startingValues hvalues, fun _ ↦ rfl⟩

/-- The parent of a child answers as the scope that the child was made of. -/
theorem Holds.child (h : scope.Holds own parent) :
    scope.child.Holds (fun _ ↦ none) (fun name ↦ (own name).or (parent name)) :=
  ⟨fun _ ↦ rfl, h.get?_eq⟩

theorem Holds.set (h : scope.Holds own parent) (name : String) (value : Value) :
    (scope.set name value).Holds (fun asked ↦ if asked = name then some value else own asked)
      parent := by
  refine ⟨fun asked ↦ ?_, h.inherited_eq⟩
  rw [RunScope.set, get?_insert, h.own_eq]

theorem Holds.remove (h : scope.Holds own parent) (name : String) :
    (scope.remove name).Holds (fun asked ↦ if asked = name then none else own asked) parent := by
  refine ⟨fun asked ↦ ?_, h.inherited_eq⟩
  rw [RunScope.remove, get?_erase, h.own_eq]

end Holds

end RunScope

/-! ### Histories -/

namespace ScopeHistory

variable {n : Nat}

/-- One more scope joins scopes that hold what they should. -/
theorem holds_joined {scopes : Fin n → RunScope} {own parent : Fin n → String → Option Value}
    {scope : RunScope} {lastOwn lastParent : String → Option Value}
    (h : ∀ number, (scopes number).Holds (own number) (parent number))
    (hscope : scope.Holds lastOwn lastParent) (number : Fin (n + 1)) :
    (joined scopes scope number).Holds (joined own lastOwn number)
      (joined parent lastParent number) := by
  unfold joined
  refine Fin.lastCases ?_ (fun old ↦ ?_) number
  · simp only [Fin.snoc_last]
    exact hscope
  · simp only [Fin.snoc_castSucc]
    exact h old

/-- The scopes of a history hold what the history says. -/
theorem holds_scopes (history : ScopeHistory n) (number : Fin n) :
    (history.scopes number).Holds (history.own number) (history.fromParent number) := by
  induction history with
  | start => exact number.elim0
  | create earlier ih => exact holds_joined ih RunScope.holds_empty number
  | declare earlier schema scope accepted ih =>
    exact holds_joined ih (RunScope.holds_of_schema accepted) number
  | descend earlier parent ih => exact holds_joined ih (ih parent).child number
  | copy earlier original ih => exact holds_joined ih (ih original) number
  | set earlier changed name value ih =>
    by_cases hnumber : number = changed
    · subst hnumber
      simpa [scopes, own, fromParent] using (ih number).set name value
    · simpa [scopes, own, fromParent, hnumber] using ih number
  | remove earlier changed name ih =>
    by_cases hnumber : number = changed
    · subst hnumber
      simpa [scopes, own, fromParent] using (ih number).remove name
    · simpa [scopes, own, fromParent, hnumber] using ih number

/-- A scope answers with the value that its history leaves to it, and else as its parent did when it
was frozen. A value that is set is answered, also if it is `undefined`, and hides what the parent
answers. Removing gives the own value back and takes only that away, so that the parent answers
again. The JSON form is an object of the JSON forms of the answers. -/
theorem scopes_answer_history (history : ScopeHistory n) (number : Fin n) (name : String) :
    (history.scopes number).get? name =
        (history.own number name).or (history.fromParent number name) ∧
      (∀ value, ((history.set number name value).scopes number).get? name = some value) ∧
      (∀ session : Session,
        ({ session with scope := history.scopes number }.perform (.remove name)).value =
          (.removed (history.own number name),
            { session with scope := (history.remove number name).scopes number })) ∧
      (∀ other asked, ((history.remove number name).scopes other).get? asked =
        if other = number ∧ asked = name then history.fromParent number name
        else (history.scopes other).get? asked) ∧
      ∃ fields, (history.scopes number).toJson = .object fields ∧
        ∀ asked, Entries.get? asked fields =
          ((history.scopes number).get? asked).map Value.toJson := by
  refine ⟨(history.holds_scopes number).get?_eq name, fun value ↦ ?_, fun session ↦ ?_,
    fun other asked ↦ ?_, (history.scopes number).exists_toJson_eq⟩
  · rw [((history.set number name value).holds_scopes number).get?_eq, own_set,
      if_pos ⟨rfl, rfl⟩, Option.some_or]
  · rw [← (history.holds_scopes number).own_eq]
    simp [Session.perform, scopes]
  · rw [((history.remove number name).holds_scopes other).get?_eq, own_remove, fromParent]
    by_cases hremoved : other = number ∧ asked = name
    · rw [if_pos hremoved, if_pos hremoved, Option.none_or, hremoved.1, hremoved.2]
    · rw [if_neg hremoved, if_neg hremoved, (history.holds_scopes other).get?_eq]

end ScopeHistory

end FlowGate

/-!
# Ordered maps

A finite map is kept as its entries in strictly ascending key order. The order is part of the
type: a list of entries carries a bound below all of its keys, and an entry may be put in front
only if its key is above the bound. So two maps with the same contents are the same term
(`OrderedMap.ext`), iteration is always in key order, and a map may be nested in an inductive type
whose values it holds.

`get?_insert`, `get?_erase` and `get?_overlay` say what each operation does to a look-up.
`mem_keys_iff` and `pairwise_keys` say what the keys are and in which order, and `size_insert` what
an insertion does to their number.
-/

set_option autoImplicit false

namespace FlowGate

/-- Entries in strictly ascending key order, all of them above the bound `low`. -/
inductive OrderedMap.Entries (κ : Type) [LT κ] (α : Type) : Option κ → Type where
  | nil {low : Option κ} : Entries κ α low
  | cons {low : Option κ} (key : κ) (above : ∀ bound ∈ low, bound < key) (value : α)
      (rest : Entries κ α (some key)) : Entries κ α low

/-- A finite map from `κ` to `α`. -/
abbrev OrderedMap (κ : Type) [LT κ] (α : Type) : Type :=
  OrderedMap.Entries κ α none

namespace OrderedMap

variable {κ α β : Type} [LT κ]

/-- No key is required to be above anything. -/
theorem above_none (key : κ) : ∀ bound ∈ (none : Option κ), bound < key := by
  simp

/-- A key above another is above the bound that the other sets. -/
theorem above_some {key other : κ} (h : other < key) : ∀ bound ∈ some other, bound < key := by
  simpa using h

namespace Entries

/-- The value under a key. -/
def get? [DecidableEq κ] {low : Option κ} (key : κ) : Entries κ α low → Option α
  | nil => none
  | cons head _ value rest => if key = head then some value else rest.get? key

/-- The keys and values in ascending order of keys. -/
def toList {low : Option κ} : Entries κ α low → List (κ × α)
  | nil => []
  | cons key _ value rest => (key, value) :: rest.toList

/-- Puts a value under a key, in place of any value there. -/
def insert [DecidableLT κ] {low : Option κ} (key : κ) (value : α)
    (above : ∀ bound ∈ low, bound < key) : Entries κ α low → Entries κ α low
  | nil => cons key above value nil
  | cons head headAbove old rest =>
    if after : head < key then
      cons head headAbove old (rest.insert key value (above_some after))
    else if before : key < head then
      cons key above value (cons head (above_some before) old rest)
    else
      cons head headAbove value rest

/-- Entries above a key are entries above anything below the key. -/
def lower (ltTrans : ∀ {a b c : κ}, a < b → b < c → a < c) {low : Option κ} {key : κ}
    (above : ∀ bound ∈ low, bound < key) : Entries κ α (some key) → Entries κ α low
  | nil => nil
  | cons head headAbove value rest =>
    cons head (fun bound h ↦ ltTrans (above bound h) (headAbove key rfl)) value rest

/-- Removes a key and its value. -/
def erase [DecidableEq κ] (ltTrans : ∀ {a b c : κ}, a < b → b < c → a < c) {low : Option κ}
    (key : κ) : Entries κ α low → Entries κ α low
  | nil => nil
  | cons head above value rest =>
    if key = head then rest.lower ltTrans above
    else cons head above value (rest.erase ltTrans key)

/-- Changes every value and keeps the keys. -/
def map {low : Option κ} (f : α → β) : Entries κ α low → Entries κ β low
  | nil => nil
  | cons key above value rest => cons key above (f value) (rest.map f)

end Entries

/-- The map without entries. -/
def empty : OrderedMap κ α :=
  .nil

/-- Puts a value under a key, in place of any value there. -/
def insert [DecidableLT κ] (map : OrderedMap κ α) (key : κ) (value : α) : OrderedMap κ α :=
  Entries.insert key value (above_none key) map

/-- The map of a list of keys and values; of equal keys the last counts. -/
def ofList [DecidableLT κ] (entries : List (κ × α)) : OrderedMap κ α :=
  entries.foldl (fun map entry ↦ map.insert entry.1 entry.2) empty

/-- The keys in ascending order. -/
def keys (map : OrderedMap κ α) : List κ :=
  (Entries.toList map).map Prod.fst

/-- The number of entries. -/
def size (map : OrderedMap κ α) : Nat :=
  (Entries.toList map).length

theorem length_keys (map : OrderedMap κ α) : map.keys.length = map.size :=
  List.length_map _

/-- Whether the map holds a value under the key. -/
def contains [DecidableEq κ] (map : OrderedMap κ α) (key : κ) : Bool :=
  (Entries.get? key map).isSome

/-- All entries of both maps; under a key of both, the value of the upper map. -/
def overlay [DecidableLT κ] (base upper : OrderedMap κ α) : OrderedMap κ α :=
  (Entries.toList upper).foldl (fun map entry ↦ map.insert entry.1 entry.2) base

/-! ### Look-ups after each operation -/

section Laws

variable [DecidableEq κ]

@[simp]
theorem get?_empty (key : κ) : Entries.get? key (empty : OrderedMap κ α) = none :=
  rfl

@[simp]
theorem get?_map {low : Option κ} (f : α → β) (key : κ) (entries : Entries κ α low) :
    (entries.map f).get? key = (entries.get? key).map f := by
  induction entries with
  | nil => rfl
  | cons head above value rest ih =>
    by_cases h : key = head <;> simp [Entries.map, Entries.get?, h, ih]

@[simp]
theorem get?_lower (ltTrans : ∀ {a b c : κ}, a < b → b < c → a < c) {low : Option κ} {bound : κ}
    (above : ∀ b ∈ low, b < bound) (entries : Entries κ α (some bound)) (key : κ) :
    (entries.lower ltTrans above).get? key = entries.get? key := by
  cases entries <;> rfl

theorem Entries.mem_keys_iff {low : Option κ} (entries : Entries κ α low) (key : κ) :
    key ∈ entries.toList.map Prod.fst ↔ (entries.get? key).isSome = true := by
  induction entries with
  | nil => simp [Entries.toList, Entries.get?]
  | cons head above value rest ih =>
    by_cases hkey : key = head <;> simp [Entries.toList, Entries.get?, hkey, ih]

/-- The keys are those that have a value. -/
theorem mem_keys_iff (map : OrderedMap κ α) (key : κ) :
    key ∈ map.keys ↔ map.contains key = true :=
  Entries.mem_keys_iff map key

theorem mem_keys_iff_exists (map : OrderedMap κ α) (key : κ) :
    key ∈ map.keys ↔ ∃ value, Entries.get? key map = some value := by
  rw [mem_keys_iff, contains, Option.isSome_iff_exists]

variable [LE κ] [Std.IsLinearOrder κ] [Std.LawfulOrderLT κ]

/-- A key at or below the bound has no value. -/
theorem get?_eq_none_of_not_above {low : Option κ} (entries : Entries κ α low) {key bound : κ}
    (hbound : bound ∈ low) (hkey : ¬bound < key) : entries.get? key = none := by
  induction entries generalizing bound with
  | nil => rfl
  | cons head above value rest ih =>
    have hhead : bound < head := above bound hbound
    have hne : key ≠ head := by
      rintro rfl
      exact hkey hhead
    rw [Entries.get?, if_neg hne]
    refine ih rfl fun hlt ↦ hkey ?_
    exact Std.lt_trans hhead hlt

/-- What is found behind an entry is found with the entry in front, which has another key. -/
theorem Entries.get?_cons_of_rest {low : Option κ} {head : κ} {above : ∀ bound ∈ low, bound < head}
    {value : α} {rest : Entries κ α (some head)} {key : κ} {found : α}
    (h : rest.get? key = some found) : (cons head above value rest).get? key = some found := by
  have hne : key ≠ head := by
    rintro rfl
    rw [get?_eq_none_of_not_above rest rfl Std.lt_irrefl] at h
    cases h
  rw [Entries.get?, if_neg hne]
  exact h

theorem Entries.get?_insert [DecidableLT κ] {low : Option κ} (key : κ) (value : α)
    (above : ∀ bound ∈ low, bound < key) (entries : Entries κ α low) (other : κ) :
    (entries.insert key value above).get? other =
      if other = key then some value else entries.get? other := by
  induction entries with
  | nil => rfl
  | cons head headAbove old rest ih =>
    rw [Entries.insert]
    split
    · rename_i hafter
      have hne : head ≠ key := by
        rintro rfl
        exact Std.lt_irrefl hafter
      rw [Entries.get?, Entries.get?, ih]
      by_cases hother : other = head
      · subst hother
        simp [hne]
      · simp [hother]
    · rename_i hafter
      split
      · rfl
      · rename_i hbefore
        have heq : key = head :=
          Std.le_antisymm (Std.not_lt.mp hafter) (Std.not_lt.mp hbefore)
        subst heq
        by_cases hother : other = key <;> simp [Entries.get?, hother]

/-- A look-up after an insertion finds the new value under its key, and else what was there. -/
@[simp]
theorem get?_insert [DecidableLT κ] (map : OrderedMap κ α) (key : κ) (value : α) (other : κ) :
    (map.insert key value).get? other = if other = key then some value else map.get? other :=
  Entries.get?_insert key value (above_none key) map other

/-- A look-up after a removal finds nothing under the key, and else what was there. -/
@[simp]
theorem get?_erase (ltTrans : ∀ {a b c : κ}, a < b → b < c → a < c) {low : Option κ}
    (entries : Entries κ α low) (key other : κ) :
    (entries.erase ltTrans key).get? other = if other = key then none else entries.get? other := by
  induction entries with
  | nil => simp [Entries.erase, Entries.get?]
  | cons head above value rest ih =>
    rw [Entries.erase]
    by_cases hhead : key = head
    · subst hhead
      rw [if_pos rfl, get?_lower, Entries.get?]
      by_cases hother : other = key
      · subst hother
        simp [get?_eq_none_of_not_above rest (Option.mem_some_self other) Std.lt_irrefl]
      · simp [hother]
    · rw [if_neg hhead, Entries.get?, Entries.get?, ih]
      by_cases hother : other = head
      · subst hother
        simp [Ne.symm hhead]
      · simp [hother]

/-- Maps with the same look-ups are equal. -/
theorem Entries.ext {low : Option κ} {left right : Entries κ α low}
    (h : ∀ key, left.get? key = right.get? key) : left = right := by
  induction left with
  | nil =>
    cases right with
    | nil => rfl
    | cons head above value rest => simpa [Entries.get?] using h head
  | cons head above value rest ih =>
    cases right with
    | nil => simpa [Entries.get?] using h head
    | cons head' above' value' rest' =>
      have hkeys : head = head' := by
        have hleft := h head
        have hright := h head'
        by_cases heq : head = head'
        · exact heq
        · have hnotBefore : ¬head < head' := by
            intro hlt
            rw [Entries.get?, if_pos rfl, Entries.get?, if_neg heq,
              get?_eq_none_of_not_above rest' rfl (Std.not_lt.mpr (Std.le_of_lt hlt))] at hleft
            cases hleft
          have hnotAfter : ¬head' < head := by
            intro hlt
            rw [Entries.get?, if_neg (Ne.symm heq), Entries.get?, if_pos rfl,
              get?_eq_none_of_not_above rest rfl (Std.not_lt.mpr (Std.le_of_lt hlt))] at hright
            cases hright
          exact Std.le_antisymm (Std.not_lt.mp hnotAfter) (Std.not_lt.mp hnotBefore)
      subst hkeys
      have hvalue : value = value' := by simpa [Entries.get?] using h head
      subst hvalue
      have hrest : rest = rest' := by
        refine ih fun key ↦ ?_
        by_cases hkey : key = head
        · subst hkey
          rw [get?_eq_none_of_not_above rest rfl Std.lt_irrefl,
            get?_eq_none_of_not_above rest' rfl Std.lt_irrefl]
        · simpa [Entries.get?, hkey] using h key
      subst hrest
      rfl

private theorem get?_foldl_insert [DecidableLT κ] {low : Option κ} (upper : Entries κ α low)
    (base : OrderedMap κ α) (key : κ) :
    Entries.get? key
        (upper.toList.foldl (fun map entry ↦ insert map entry.1 entry.2) base) =
      (upper.get? key).or (base.get? key) := by
  induction upper generalizing base with
  | nil => rfl
  | cons head above value rest ih =>
    rw [Entries.toList, List.foldl_cons, ih, get?_insert, Entries.get?]
    by_cases hkey : key = head
    · subst hkey
      simp [get?_eq_none_of_not_above rest rfl Std.lt_irrefl]
    · simp [hkey]

/-- A look-up in an overlay asks the upper map first. -/
@[simp]
theorem get?_overlay [DecidableLT κ] (base upper : OrderedMap κ α) (key : κ) :
    (base.overlay upper).get? key = (upper.get? key).or (base.get? key) :=
  get?_foldl_insert upper base key

/-! ### Order and number of the keys -/

theorem Entries.pairwise_keys {low : Option κ} (entries : Entries κ α low) :
    (entries.toList.map Prod.fst).Pairwise (· < ·) := by
  induction entries with
  | nil => exact .nil
  | cons head above value rest ih =>
    refine List.pairwise_cons.mpr ⟨fun key hkey ↦ ?_, ih⟩
    refine Classical.byContradiction fun hnot ↦ ?_
    rw [rest.mem_keys_iff, get?_eq_none_of_not_above rest rfl hnot] at hkey
    cases hkey

theorem pairwise_keys (map : OrderedMap κ α) : map.keys.Pairwise (· < ·) :=
  Entries.pairwise_keys map

theorem nodup_keys (map : OrderedMap κ α) : map.keys.Nodup :=
  (pairwise_keys map).imp fun hlt heq ↦ by
    subst heq
    exact Std.lt_irrefl hlt

theorem Entries.length_insert [DecidableLT κ] {low : Option κ} (key : κ) (value : α)
    (above : ∀ bound ∈ low, bound < key) (entries : Entries κ α low) :
    (entries.insert key value above).toList.length =
      if (entries.get? key).isSome then entries.toList.length else entries.toList.length + 1 := by
  induction entries with
  | nil => rfl
  | cons head headAbove old rest ih =>
    rw [Entries.insert, Entries.get?]
    split
    · rename_i hafter
      have hne : key ≠ head := by
        rintro rfl
        exact Std.lt_irrefl hafter
      rw [if_neg hne, Entries.toList, List.length_cons, ih, Entries.toList, List.length_cons]
      split <;> rfl
    · rename_i hafter
      split
      · rename_i hbefore
        have hne : key ≠ head := by
          rintro rfl
          exact Std.lt_irrefl hbefore
        rw [if_neg hne, get?_eq_none_of_not_above rest rfl hafter]
        rfl
      · rename_i hbefore
        have heq : key = head :=
          Std.le_antisymm (Std.not_lt.mp hafter) (Std.not_lt.mp hbefore)
        rw [if_pos heq]
        rfl

/-- An insertion under a new key adds an entry. -/
theorem size_insert [DecidableLT κ] (map : OrderedMap κ α) (key : κ) (value : α) :
    (map.insert key value).size = if map.contains key then map.size else map.size + 1 :=
  Entries.length_insert key value (above_none key) map

end Laws

end OrderedMap

end FlowGate

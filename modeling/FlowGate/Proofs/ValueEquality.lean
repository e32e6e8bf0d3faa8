import FlowGate.Expr.Eval
import Mathlib.Data.List.Perm.Subperm

/-!
# Equality of values

Two values without doubles are equal iff they are the same once every token is taken for the string
of its text (`Value.equals_iff_untokened_eq`). So equality is an equivalence on these values.

Mappings are compared by their sizes and along the entries of one side only. The other side has no
further keys, since there are as many on both sides and none twice (`mem_keys_iff_of_size_eq`);
what is left is that the keys are the same and the values under each are equal
(`Value.mapping_equals_iff`).
-/

set_option autoImplicit false

namespace FlowGate

open OrderedMap

/-! ### Keys and sizes -/

namespace OrderedMap

variable {κ α β : Type} [LT κ] [DecidableEq κ] [LE κ] [Std.IsLinearOrder κ] [Std.LawfulOrderLT κ]

/-- Keys that are all among as many others are the others. -/
theorem mem_keys_iff_of_size_eq {left : OrderedMap κ α} {right : OrderedMap κ β}
    (hsize : left.size = right.size) (h : ∀ key ∈ left.keys, key ∈ right.keys) (key : κ) :
    key ∈ left.keys ↔ key ∈ right.keys := by
  have hperm : left.keys.Perm right.keys := by
    refine (List.subperm_of_subset left.nodup_keys h).perm_of_length_le (Nat.le_of_eq ?_)
    rw [length_keys, length_keys, hsize]
  exact hperm.mem_iff

theorem size_eq_of_mem_keys_iff {left : OrderedMap κ α} {right : OrderedMap κ β}
    (h : ∀ key, key ∈ left.keys ↔ key ∈ right.keys) : left.size = right.size := by
  rw [← length_keys, ← length_keys]
  exact ((List.perm_ext_iff_of_nodup left.nodup_keys right.nodup_keys).mpr h).length_eq

end OrderedMap

namespace Value

mutual

/-- Whether the value is a double or has one in it at some depth. -/
def hasFloat : Value → Bool
  | bool _ | int _ | string _ | token _ | undefined => false
  | float _ => true
  | mapping entries => hasFloatEntry entries

def hasFloatEntry {low : Option String} : Entries String Value low → Bool
  | .nil => false
  | .cons _ _ value rest => value.hasFloat || hasFloatEntry rest

end

mutual

/-- The value with every token in it taken for the string of its text. -/
def untokened : Value → Value
  | bool b => bool b
  | int n => int n
  | float x => float x
  | string s => string s
  | token text => string text
  | mapping entries => mapping (untokenedEntries entries)
  | undefined => undefined

def untokenedEntries {low : Option String} :
    Entries String Value low → Entries String Value low
  | .nil => .nil
  | .cons key above value rest => .cons key above value.untokened (untokenedEntries rest)

end

theorem untokenedEntries_eq_map {low : Option String} (entries : Entries String Value low) :
    untokenedEntries entries = entries.map untokened := by
  induction entries with
  | nil => rfl
  | cons key above value rest ih => rw [untokenedEntries, ih, Entries.map]

theorem hasFloat_of_get? {low : Option String} {entries : Entries String Value low} {key : String}
    {value : Value} (hentries : hasFloatEntry entries = false)
    (h : entries.get? key = some value) : value.hasFloat = false := by
  induction entries with
  | nil => cases h
  | cons head above other rest ih =>
    obtain ⟨hother, hrest⟩ := Bool.or_eq_false_iff.mp hentries
    rw [Entries.get?] at h
    split at h
    · cases h
      exact hother
    · exact ih hrest h

/-! ### Mappings -/

/-- Entries are equal to others if each of them has an equal one under its key. -/
theorem entriesEqual_iff {low : Option String} (entries : Entries String Value low)
    (others : OrderedMap String Value) :
    entriesEqual entries others = true ↔
      ∀ key value, entries.get? key = some value →
        ∃ other, Entries.get? key others = some other ∧ value.equals other = true := by
  induction entries with
  | nil => simp [entriesEqual, Entries.get?]
  | cons head above value rest ih =>
    rw [entriesEqual, Bool.and_eq_true, ih]
    constructor
    · rintro ⟨hvalue, hrest⟩ key found hfound
      rw [Entries.get?] at hfound
      split at hfound
      · rename_i hkey
        subst hkey
        cases hfound
        cases hother : Entries.get? key others with
        | none => simp [hother] at hvalue
        | some other => exact ⟨other, rfl, by simpa [hother] using hvalue⟩
      · exact hrest key found hfound
    · refine fun h ↦ ⟨?_, fun key found hfound ↦ h key found (Entries.get?_cons_of_rest hfound)⟩
      obtain ⟨other, hother, hequal⟩ := h head value (if_pos rfl)
      rw [hother]
      exact hequal

/-- Mappings are equal iff they have the same keys and equal values under each. -/
theorem mapping_equals_iff (left right : OrderedMap String Value) :
    (mapping left).equals (mapping right) = true ↔
      (∀ key, key ∈ OrderedMap.keys left ↔ key ∈ OrderedMap.keys right) ∧
        ∀ key value other, Entries.get? key left = some value →
          Entries.get? key right = some other → value.equals other = true := by
  rw [equals, Bool.and_eq_true, beq_iff_eq, entriesEqual_iff]
  constructor
  · rintro ⟨hsize, hentries⟩
    refine ⟨mem_keys_iff_of_size_eq hsize fun key hkey ↦ ?_, fun key value other hvalue hother ↦ ?_⟩
    · obtain ⟨value, hvalue⟩ := (mem_keys_iff_exists left key).mp hkey
      obtain ⟨other, hother, -⟩ := hentries key value hvalue
      exact (mem_keys_iff_exists right key).mpr ⟨other, hother⟩
    · obtain ⟨found, hfound, hequal⟩ := hentries key value hvalue
      obtain rfl := Option.some.inj (hother.symm.trans hfound)
      exact hequal
  · rintro ⟨hsame, hvalues⟩
    refine ⟨size_eq_of_mem_keys_iff hsame, fun key value hvalue ↦ ?_⟩
    have hkey : key ∈ OrderedMap.keys left := (mem_keys_iff_exists left key).mpr ⟨value, hvalue⟩
    obtain ⟨other, hother⟩ := (mem_keys_iff_exists right key).mp ((hsame key).mp hkey)
    exact ⟨other, hother, hvalues key value other hvalue hother⟩

theorem untokenedEntries_eq_iff (left right : OrderedMap String Value) :
    untokenedEntries left = untokenedEntries right ↔
      (∀ key, key ∈ OrderedMap.keys left ↔ key ∈ OrderedMap.keys right) ∧
        ∀ key value other, Entries.get? key left = some value →
          Entries.get? key right = some other → value.untokened = other.untokened := by
  have hext : untokenedEntries left = untokenedEntries right ↔
      ∀ key, (Entries.get? key left).map untokened = (Entries.get? key right).map untokened := by
    rw [untokenedEntries_eq_map, untokenedEntries_eq_map]
    refine ⟨fun h key ↦ ?_, fun h ↦ Entries.ext fun key ↦ ?_⟩
    · rw [← get?_map, h, get?_map]
    · rw [get?_map, get?_map, h key]
  rw [hext, ← forall_and]
  refine forall_congr' fun key ↦ ?_
  rw [mem_keys_iff_exists, mem_keys_iff_exists]
  cases Entries.get? key left <;> cases Entries.get? key right <;> simp

/-! ### Values -/

mutual

/-- Values without doubles are equal iff they are the same without tokens. -/
theorem equals_iff_untokened_eq : ∀ {value other : Value}, value.hasFloat = false →
    other.hasFloat = false → (value.equals other = true ↔ value.untokened = other.untokened)
  | mapping entries, other, hvalue, hother => by
    cases other with
    | mapping others =>
      rw [mapping_equals_iff, untokened, untokened, mapping.injEq, untokenedEntries_eq_iff]
      refine and_congr_right fun _ ↦ forall_congr' fun key ↦ forall₂_congr fun found otherFound ↦
        forall₂_congr fun hfound hotherFound ↦ ?_
      exact equals_iff_of_get? hvalue hfound (hasFloat_of_get? hother hotherFound)
    | _ => simp [equals, untokened]
  | bool _, other, _, hother | int _, other, _, hother | string _, other, _, hother
  | token _, other, _, hother | undefined, other, _, hother => by
    cases other <;> simp_all [equals, untokened, hasFloat]

/-- The same for a value that is found in entries. It is smaller than the mapping because of where
it stands, so the recursion goes along the entries. -/
theorem equals_iff_of_get? {low : Option String} :
    ∀ {entries : Entries String Value low} {key : String} {value other : Value},
      hasFloatEntry entries = false → entries.get? key = some value → other.hasFloat = false →
        (value.equals other = true ↔ value.untokened = other.untokened)
  | .nil, _, _, _, _, h, _ => nomatch h
  | .cons head above first rest, key, value, other, hentries, h, hother => by
    obtain ⟨hfirst, hrest⟩ := Bool.or_eq_false_iff.mp hentries
    rw [Entries.get?] at h
    split at h
    · cases h
      exact equals_iff_untokened_eq hfirst hother
    · exact equals_iff_of_get? hrest h hother

end

theorem equivalence_equals :
    Equivalence fun left right : {value : Value // value.hasFloat = false} ↦
      left.1.equals right.1 = true where
  refl value := (equals_iff_untokened_eq value.2 value.2).mpr rfl
  symm {left right} h :=
    (equals_iff_untokened_eq right.2 left.2).mpr
      ((equals_iff_untokened_eq left.2 right.2).mp h).symm
  trans {first second third} h hnext :=
    (equals_iff_untokened_eq first.2 third.2).mpr
      (((equals_iff_untokened_eq first.2 second.2).mp h).trans
        ((equals_iff_untokened_eq second.2 third.2).mp hnext))

end Value

/-- Equality of values. Where no doubles are, values are equal iff they are the same once tokens are
taken for strings, at any depth, and equality is an equivalence. Mappings are equal iff they have
the same keys and equal values under each, and so a key without a value is not a missing key. In
expressions `!=` is the negation of `==`. -/
theorem equals_up_to_tokens :
    (∀ left right : Value, left.hasFloat = false → right.hasFloat = false →
      (left.equals right = true ↔ left.untokened = right.untokened)) ∧
    (Equivalence fun left right : {value : Value // value.hasFloat = false} ↦
      left.1.equals right.1 = true) ∧
    (∀ left right : OrderedMap String Value,
      ((Value.mapping left).equals (.mapping right) = true ↔
        (∀ key, key ∈ OrderedMap.keys left ↔ key ∈ OrderedMap.keys right) ∧
          ∀ key value other, Entries.get? key left = some value →
            Entries.get? key right = some other → value.equals other = true) ∧
      ∀ key, Entries.get? key left = some .undefined → Entries.get? key right = none →
        (Value.mapping left).equals (.mapping right) = false ∧
          (Value.mapping right).equals (.mapping left) = false) ∧
    ∀ (env : String → Value) (left right : Expr) (value other : Value),
      left.eval env = .ok value → right.eval env = .ok other →
        (Expr.binary .equal left right).eval env = .ok (.bool (value.equals other)) ∧
          (Expr.binary .notEqual left right).eval env = .ok (.bool !value.equals other) := by
  refine ⟨fun _ _ ↦ Value.equals_iff_untokened_eq, Value.equivalence_equals,
    fun left right ↦ ⟨Value.mapping_equals_iff left right, fun key hkey hmissing ↦ ?_⟩,
    fun env left right value other hleft hright ↦ ?_⟩
  · have hleft : key ∈ OrderedMap.keys left := (mem_keys_iff_exists left key).mpr ⟨_, hkey⟩
    have hright : key ∉ OrderedMap.keys right := by
      intro hmem
      obtain ⟨value, hvalue⟩ := (mem_keys_iff_exists right key).mp hmem
      rw [hmissing] at hvalue
      cases hvalue
    refine ⟨Bool.eq_false_iff.mpr fun h ↦ ?_, Bool.eq_false_iff.mpr fun h ↦ ?_⟩
    · obtain ⟨hsame, -⟩ := (Value.mapping_equals_iff left right).mp h
      exact hright ((hsame key).mp hleft)
    · obtain ⟨hsame, -⟩ := (Value.mapping_equals_iff right left).mp h
      exact hright ((hsame key).mpr hleft)
  · exact ⟨Expr.eval_binary nofun nofun hleft hright, Expr.eval_binary nofun nofun hleft hright⟩

/-- A record with a token, and one with the string of the same text. -/
def recordWith (count : Value) : OrderedMap String Value :=
  OrderedMap.ofList [("order", .mapping (OrderedMap.ofList [("count", count)])),
    ("paid", .undefined)]

theorem equals_up_to_tokens_record :
    (Value.mapping (recordWith (.token "10"))).hasFloat = false ∧
      (Value.mapping (recordWith (.string "10"))).hasFloat = false ∧
      (Value.mapping (recordWith (.token "10"))).equals (.mapping (recordWith (.string "10"))) =
        true ∧
      Entries.get? "paid" (recordWith (.token "10")) = some .undefined ∧
      (Value.mapping (recordWith (.token "10"))).equals (.mapping OrderedMap.empty) = false := by
  obtain ⟨huntokened, -, hmapping, -⟩ := equals_up_to_tokens
  refine ⟨rfl, rfl, (huntokened _ _ rfl rfl).mpr rfl, rfl, ?_⟩
  exact ((hmapping (recordWith (.token "10")) OrderedMap.empty).2 "paid" rfl rfl).1

end FlowGate

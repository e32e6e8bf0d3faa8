import Mathlib.Data.List.TakeWhile

/-!
# Runs of characters

Which characters are letters, where a run of fitting characters ends, and where a word can stand in
two texts that are joined.
-/

set_option autoImplicit false

namespace FlowGate

theorem isUpper_iff_toNat {c : Char} : c.isUpper = true ↔ 65 ≤ c.toNat ∧ c.toNat ≤ 90 := by
  show decide ('A'.val ≤ c.val ∧ c.val ≤ 'Z'.val) = true ↔ _
  rw [decide_eq_true_iff, UInt32.le_iff_toNat_le, UInt32.le_iff_toNat_le]
  exact Iff.rfl

theorem isLower_iff_toNat {c : Char} : c.isLower = true ↔ 97 ≤ c.toNat ∧ c.toNat ≤ 122 := by
  show (decide ('a'.val ≤ c.val) && decide (c.val ≤ 'z'.val)) = true ↔ _
  rw [Bool.and_eq_true_iff, decide_eq_true_iff, decide_eq_true_iff, UInt32.le_iff_toNat_le,
    UInt32.le_iff_toNat_le]
  exact Iff.rfl

universe u

variable {α : Type u}

/-- A run ends where something stands that does not fit. -/
theorem takeWhile_append_of_stop {p : α → Bool} {front rest : List α}
    (hfront : ∀ c ∈ front, p c = true) (hrest : ∀ c ∈ rest.head?, p c = false) :
    (front ++ rest).takeWhile p = front ∧ (front ++ rest).dropWhile p = rest := by
  have hstop : rest.takeWhile p = [] ∧ rest.dropWhile p = rest := by
    cases rest with
    | nil => exact ⟨rfl, rfl⟩
    | cons c cs =>
      have hc := hrest c rfl
      exact ⟨List.takeWhile_cons_of_neg (by simp [hc]), List.dropWhile_cons_of_neg (by simp [hc])⟩
  rw [List.takeWhile_append_of_pos hfront, List.dropWhile_append_of_pos hfront, hstop.1, hstop.2]
  exact ⟨List.append_nil front, rfl⟩

/-- A run is the same where something follows that does not fit. -/
theorem takeWhile_append_of_head {p : α → Bool} (front : List α) {rest : List α}
    (hrest : ∀ c ∈ rest.head?, p c = false) :
    (front ++ rest).takeWhile p = front.takeWhile p ∧
      (front ++ rest).dropWhile p = front.dropWhile p ++ rest := by
  have hstop : ∀ c ∈ (front.dropWhile p ++ rest).head?, p c = false := by
    intro c hc
    cases hdrop : front.dropWhile p with
    | nil =>
      rw [hdrop] at hc
      exact hrest c hc
    | cons d left =>
      rw [hdrop] at hc
      obtain rfl := Option.mem_some.mp hc
      have hhead := List.head?_dropWhile_not p front
      rw [hdrop] at hhead
      simpa using hhead
  have hall : ∀ c ∈ front.takeWhile p, p c = true := List.all_eq_true.mp List.all_takeWhile
  have hrun := takeWhile_append_of_stop hall hstop
  rwa [← List.append_assoc, List.takeWhile_append_dropWhile] at hrun

section Occurrences

variable {front back text rest word : List α} {c : α}

/-- A word begins after a text that does not have its first character. -/
theorem exists_of_append_eq (htext : c ∉ text)
    (h : text ++ rest = front ++ (c :: word ++ back)) :
    ∃ later, rest = later ++ (c :: word ++ back) := by
  rcases List.append_eq_append_iff.mp h with ⟨middle, rfl, hrest⟩ | ⟨middle, rfl, hword⟩
  · exact ⟨middle, hrest⟩
  · cases middle with
    | nil => exact ⟨[], hword.symm⟩
    | cons d middle =>
      obtain ⟨rfl, -⟩ := List.cons.inj hword
      exact absurd (List.mem_append_right front List.mem_cons_self) htext

/-- A word stands before or after a character that it does not have. -/
theorem infix_or_exists_of_append_cons_eq (hword : c ∉ word)
    (h : text ++ c :: rest = front ++ (word ++ back)) :
    word <:+: text ∨ ∃ later, rest = later ++ (word ++ back) := by
  rcases List.append_eq_append_iff.mp h with ⟨middle, rfl, hrest⟩ | ⟨middle, rfl, hfront⟩
  · cases middle with
    | nil =>
      cases word with
      | nil => exact .inl List.nil_infix
      | cons d word =>
        obtain ⟨rfl, -⟩ := List.cons.inj hrest
        exact absurd List.mem_cons_self hword
    | cons d middle => exact .inr ⟨middle, (List.cons.inj hrest).2⟩
  · left
    rcases List.append_eq_append_iff.mp hfront with ⟨tail, rfl, -⟩ | ⟨tail, rfl, htail⟩
    · exact ⟨front, tail, List.append_assoc _ _ _⟩
    · cases tail with
      | nil => exact ⟨front, [], by simp⟩
      | cons d tail =>
        obtain ⟨rfl, -⟩ := List.cons.inj htail
        exact absurd (List.mem_append_right middle List.mem_cons_self) hword

end Occurrences

end FlowGate

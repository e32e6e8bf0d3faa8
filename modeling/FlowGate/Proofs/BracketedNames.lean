import FlowGate.Proofs.ReferenceRuns

/-!
# Names in brackets

A `$[` opens a name that goes on to the bracket that closes the first one. Where no character of a
name follows that bracket, the name is exactly the text in the brackets. Where some do, they are
read as part of the reference, and as the name ends one character before the reference does, it
takes in the closing bracket and loses the last of them (`translate_closed_brackets`).

`Balanced` are the texts in brackets. `scanBrackets_append_of_balanced` says that they are read to
their end whatever follows, and `scan_closed` how far the reference goes behind them.
-/

set_option autoImplicit false

namespace FlowGate.Reference

/-- Characters of names, and brackets that match. -/
inductive Balanced : List Char → Prop where
  | nil : Balanced []
  | name {c : Char} {cs : List Char} : isNameChar c = true → Balanced cs → Balanced (c :: cs)
  | group {inner rest : List Char} : Balanced inner → Balanced rest →
      Balanced ('[' :: (inner ++ ']' :: rest))

/-! ### Reading in brackets -/

theorem scanBrackets_opening (depth : Nat) (cs : List Char) :
    scanBrackets (depth + 1) ('[' :: cs) =
      ('[' :: (scanBrackets (depth + 2) cs).1, (scanBrackets (depth + 2) cs).2) := by
  rw [scanBrackets, if_pos ⟨rfl, Nat.succ_pos depth⟩]

theorem scanBrackets_closing (depth : Nat) (cs : List Char) :
    scanBrackets (depth + 1) (']' :: cs) =
      (']' :: (scanBrackets depth cs).1, (scanBrackets depth cs).2) := by
  rw [scanBrackets, if_neg (by simp), if_pos ⟨rfl, Nat.succ_pos depth⟩, Nat.add_sub_cancel]

theorem scanBrackets_name {c : Char} (h : isNameChar c = true) (depth : Nat) (cs : List Char) :
    scanBrackets depth (c :: cs) = (c :: (scanBrackets depth cs).1, (scanBrackets depth cs).2) := by
  have hopen : c ≠ '[' := by
    rintro rfl
    exact absurd h (by decide)
  have hclose : c ≠ ']' := by
    rintro rfl
    exact absurd h (by decide)
  rw [scanBrackets, if_neg fun hc ↦ hopen hc.1, if_neg fun hc ↦ hclose hc.1, if_pos h]

/-- In an open bracket, text with matching brackets is read to its end. -/
theorem scanBrackets_append_of_balanced {inner : List Char} (h : Balanced inner) (depth : Nat)
    (rest : List Char) :
    scanBrackets (depth + 1) (inner ++ rest) =
      (inner ++ (scanBrackets (depth + 1) rest).1, (scanBrackets (depth + 1) rest).2) := by
  induction h generalizing depth rest with
  | nil => rfl
  | name hc _ ih => rw [List.cons_append, scanBrackets_name hc, ih, List.cons_append]
  | @group inner others _ _ ihinner ihothers =>
    rw [List.cons_append, List.append_assoc, List.cons_append, scanBrackets_opening, ihinner,
      scanBrackets_closing, ihothers]
    simp only [List.cons_append, List.append_assoc]

/-! ### Closed brackets -/

section Closed

variable {inner run after : List Char}

/-- A reference in brackets goes on behind them as long as characters of names follow. -/
theorem scan_closed (hinner : Balanced inner) (hrun : ∀ c ∈ run, isNameChar c = true)
    (hafter : Ends after) :
    scan ('[' :: (inner ++ ']' :: (run ++ after))) =
      ⟨'[' :: (inner ++ ']' :: run), (inner ++ ']' :: run).dropLast, after⟩ := by
  obtain ⟨htake, hdrop⟩ := takeWhile_append_of_stop hrun hafter
  have hread : scanBrackets 1 (inner ++ ']' :: (run ++ after)) =
      (inner ++ ']' :: run, 0, after) := by
    rw [scanBrackets_append_of_balanced hinner, scanBrackets_closing, scanBrackets_zero, htake,
      hdrop]
  rw [scan_bracket, hread]
  rfl

/-- The name of a closed reference is not empty if there is something in the brackets. -/
theorem name_scan_closed_ne_nil (hne : inner ≠ []) (hinner : Balanced inner)
    (hrun : ∀ c ∈ run, isNameChar c = true) (hafter : Ends after) :
    (scan ('[' :: (inner ++ ']' :: (run ++ after)))).name ≠ [] := by
  rw [scan_closed hinner hrun hafter]
  dsimp only
  rw [List.dropLast_append_of_ne_nil (List.cons_ne_nil _ _)]
  exact List.append_ne_nil_of_left_ne_nil hne _

theorem names_closed (hne : inner ≠ []) (hinner : Balanced inner)
    (hrun : ∀ c ∈ run, isNameChar c = true) (hafter : Ends after) :
    names ('$' :: '[' :: (inner ++ ']' :: (run ++ after))) =
      String.ofList (inner ++ ']' :: run).dropLast :: names after := by
  rw [names_of_named (name_scan_closed_ne_nil hne hinner hrun hafter),
    scan_closed hinner hrun hafter]

theorem rewrite_closed (hne : inner ≠ []) (hinner : Balanced inner)
    (hrun : ∀ c ∈ run, isNameChar c = true) (hafter : Ends after) :
    rewrite ('$' :: '[' :: (inner ++ ']' :: (run ++ after))) =
      Piece.lookupForm (inner ++ ']' :: run).dropLast ++ rewrite after := by
  rw [rewrite_of_named (name_scan_closed_ne_nil hne hinner hrun hafter),
    scan_closed hinner hrun hafter]

end Closed

/-! ### Texts with a closed reference -/

/-- A text with a name in brackets in it. -/
def withBrackets (front inner rest : String) : String :=
  front ++ "$[" ++ inner ++ "]" ++ rest

section Texts

variable {front inner rest : String}

/-- The translation of a text whose first reference is closed, where `run` are the characters of
names right behind the closing bracket. -/
theorem translate_withBrackets (hfront : '$' ∉ front.toList) (hne : inner ≠ "")
    (hinner : Balanced inner.toList) {run after : List Char} (hrest : rest.toList = run ++ after)
    (hrun : ∀ c ∈ run, isNameChar c = true) (hafter : Ends after) :
    (translate (withBrackets front inner rest)).attributes =
        String.ofList (inner.toList ++ ']' :: run).dropLast :: names after ∧
      (translate (withBrackets front inner rest)).rewritten.toList =
        front.toList ++ (Piece.lookupForm (inner.toList ++ ']' :: run).dropLast ++
          rewrite after) := by
  have hlist : inner.toList ≠ [] := fun h ↦ hne (String.toList_eq_nil_iff.mp h)
  have htext : (withBrackets front inner rest).toList =
      front.toList ++ '$' :: '[' :: (inner.toList ++ ']' :: (run ++ after)) := by
    simp [withBrackets, hrest]
  rw [translate_eq, htext, names_append_of_plain hfront, rewrite_append_of_plain hfront,
    names_closed hlist hinner hrun hafter, rewrite_closed hlist hinner hrun hafter]
  exact ⟨rfl, String.toList_ofList⟩

/-- Where no name goes on behind the brackets, the name is the text in them. -/
theorem translate_withBrackets_of_ends (hfront : '$' ∉ front.toList) (hne : inner ≠ "")
    (hinner : Balanced inner.toList) (hrest : Ends rest.toList) :
    (translate (withBrackets front inner rest)).attributes =
        inner :: (translate rest).attributes ∧
      (translate (withBrackets front inner rest)).rewritten.toList =
        front.toList ++ (Piece.lookupForm inner.toList ++ (translate rest).rewritten.toList) := by
  have hname : (inner.toList ++ [']']).dropLast = inner.toList := List.dropLast_concat
  obtain ⟨hattributes, hrewritten⟩ :=
    translate_withBrackets hfront hne hinner (List.nil_append _).symm (by simp) hrest
  rw [hname] at hattributes hrewritten
  rw [hattributes, hrewritten, String.ofList_toList, translate_eq, String.toList_ofList]
  exact ⟨rfl, rfl⟩

/-- Where a name goes on behind the brackets, the name that is read has the closing bracket in it
and all of what goes on but its last character. -/
theorem translate_withBrackets_of_run (hfront : '$' ∉ front.toList) (hne : inner ≠ "")
    (hinner : Balanced inner.toList) {run after : String} {last : Char}
    (hrest : rest = run.push last ++ after)
    (hrun : ∀ c ∈ (run.push last).toList, isNameChar c = true) (hafter : Ends after.toList) :
    (translate (withBrackets front inner rest)).attributes =
        (inner ++ "]" ++ run) :: (translate after).attributes ∧
      (translate (withBrackets front inner rest)).rewritten.toList =
        front.toList ++ (Piece.lookupForm (inner ++ "]" ++ run).toList ++
          (translate after).rewritten.toList) := by
  have hlist : rest.toList = (run.push last).toList ++ after.toList := by
    rw [hrest, String.toList_append]
  have hname : (inner.toList ++ ']' :: (run.push last).toList).dropLast =
      (inner ++ "]" ++ run).toList := by
    have hsplit : inner.toList ++ ']' :: (run.push last).toList =
        (inner ++ "]" ++ run).toList ++ [last] := by
      simp
    rw [hsplit, List.dropLast_concat]
  obtain ⟨hattributes, hrewritten⟩ :=
    translate_withBrackets hfront hne hinner hlist hrun hafter
  rw [hname] at hattributes hrewritten
  rw [hattributes, hrewritten, String.ofList_toList, translate_eq, String.toList_ofList]
  exact ⟨rfl, rfl⟩

end Texts

/-- No name goes on into a text, or it begins with characters of names up to where none goes on. -/
theorem ends_or_exists_run (rest : String) :
    Ends rest.toList ∨ ∃ (run : String) (last : Char) (after : String),
      rest = run.push last ++ after ∧ (∀ c ∈ (run.push last).toList, isNameChar c = true) ∧
        Ends after.toList := by
  have hsplit : rest.toList.takeWhile isNameChar ++ rest.toList.dropWhile isNameChar =
      rest.toList := List.takeWhile_append_dropWhile
  have hafter : Ends (rest.toList.dropWhile isNameChar) := by
    intro c hc
    have hstop := List.head?_dropWhile_not isNameChar rest.toList
    rwa [hc] at hstop
  obtain hnil | ⟨run, last, hrun⟩ :=
    List.eq_nil_or_concat (rest.toList.takeWhile isNameChar)
  · left
    rw [hnil, List.nil_append] at hsplit
    rwa [hsplit] at hafter
  · right
    have hpush : ((String.ofList run).push last).toList = rest.toList.takeWhile isNameChar := by
      rw [hrun, List.concat_eq_append, String.toList_push, String.toList_ofList]
    refine ⟨String.ofList run, last, String.ofList (rest.toList.dropWhile isNameChar), ?_, ?_, ?_⟩
    · rw [← String.toList_inj, String.toList_append, hpush, String.toList_ofList, hsplit]
    · rw [hpush]
      exact List.all_eq_true.mp List.all_takeWhile
    · rwa [String.toList_ofList]

/-- A name in closed brackets is the text in the brackets iff no name goes on behind them, and then
nothing of what follows is lost. If a name goes on, the name that is read holds the closing bracket
and what goes on without its last character, which is lost. -/
theorem translate_closed_brackets (front inner rest : String) (hfront : '$' ∉ front.toList)
    (hne : inner ≠ "") (hinner : Balanced inner.toList) :
    ((translate (withBrackets front inner rest)).attributes.head? = some inner ↔
        Ends rest.toList) ∧
      (Ends rest.toList →
        (translate (withBrackets front inner rest)).attributes =
            inner :: (translate rest).attributes ∧
          (translate (withBrackets front inner rest)).rewritten.toList =
            front.toList ++ (Piece.lookupForm inner.toList ++
              (translate rest).rewritten.toList)) ∧
      ∀ (run : String) (last : Char) (after : String), rest = run.push last ++ after →
        (∀ c ∈ (run.push last).toList, isNameChar c = true) → Ends after.toList →
          (translate (withBrackets front inner rest)).attributes =
              (inner ++ "]" ++ run) :: (translate after).attributes ∧
            (translate (withBrackets front inner rest)).rewritten.toList =
              front.toList ++ (Piece.lookupForm (inner ++ "]" ++ run).toList ++
                (translate after).rewritten.toList) := by
  have hends : Ends rest.toList →
      (translate (withBrackets front inner rest)).attributes =
          inner :: (translate rest).attributes ∧
        (translate (withBrackets front inner rest)).rewritten.toList =
          front.toList ++ (Piece.lookupForm inner.toList ++ (translate rest).rewritten.toList) :=
    translate_withBrackets_of_ends hfront hne hinner
  refine ⟨⟨fun hhead ↦ ?_, fun hrest ↦ ?_⟩, hends, fun run last after hrest hrun hafter ↦ ?_⟩
  · obtain hrest | ⟨run, last, after, hrest, hrun, hafter⟩ := ends_or_exists_run rest
    · exact hrest
    · -- the name that is read is longer than the text in the brackets
      rw [(translate_withBrackets_of_run hfront hne hinner hrest hrun hafter).1, List.head?_cons,
        Option.some.injEq] at hhead
      have hlength := congrArg String.length hhead
      simp only [String.length_append] at hlength
      have hbracket : "]".length = 1 := rfl
      omega
  · rw [(hends hrest).1, List.head?_cons]
  · exact translate_withBrackets_of_run hfront hne hinner hrest hrun hafter

theorem balanced_stage : Balanced "a[b]c".toList :=
  .name rfl (.group (.name rfl .nil) (.name rfl .nil))

theorem translate_closed_brackets_stage :
    '$' ∉ "1 < ".toList ∧ "a[b]c" ≠ "" ∧ Balanced "a[b]c".toList ∧ Ends "[\"k\"]".toList ∧
      (translate (withBrackets "1 < " "a[b]c" "[\"k\"]")).attributes.head? = some "a[b]c" := by
  have hfront : '$' ∉ "1 < ".toList := by decide
  have hne : "a[b]c" ≠ "" := by decide
  have hrest : Ends "[\"k\"]".toList := by
    rintro c hc
    obtain rfl := Option.some.inj hc
    rfl
  obtain ⟨hhead, -⟩ := translate_closed_brackets "1 < " "a[b]c" "[\"k\"]" hfront hne balanced_stage
  exact ⟨hfront, hne, balanced_stage, hrest, hhead.mpr hrest⟩

/-- A letter behind the brackets is lost, and the bracket in front of it is read as part of the
name. -/
theorem translate_brackets_then_letter :
    withBrackets "" "a" "b" = "$[a]b" ∧ '$' ∉ "".toList ∧ "a" ≠ "" ∧ Balanced "a".toList ∧
      (translate "$[a]b").attributes = ["a]"] ∧
      (translate "$[a]b").rewritten = "lookup(\"a]\")" ∧
      (translate "$[a]b").attributes.head? ≠ some "a" := by
  have htext : withBrackets "" "a" "b" = "$[a]b" := rfl
  have hfront : '$' ∉ "".toList := by decide
  have hne : "a" ≠ "" := by decide
  have hinner : Balanced "a".toList := .name rfl .nil
  have hrun : ∀ c ∈ ("".push 'b').toList, isNameChar c = true := by
    intro c hc
    obtain rfl := List.mem_singleton.mp hc
    rfl
  have hafter : Ends "".toList := by
    rintro c hc
    cases hc
  have hrest : "b" = "".push 'b' ++ "" := rfl
  obtain ⟨hattributes, hrewritten⟩ :=
    translate_withBrackets_of_run hfront hne hinner hrest hrun hafter
  rw [htext] at hattributes hrewritten
  have hempty : translate "" = ⟨[], ""⟩ := by
    rw [translate_eq]
    exact congrArg₂ LinkText.mk names_nil (congrArg String.ofList rewrite_nil)
  rw [hempty] at hattributes hrewritten
  refine ⟨htext, hfront, hne, hinner, hattributes, ?_, ?_⟩
  · rw [← String.toList_inj, hrewritten]
    rfl
  · rw [hattributes]
    decide

end FlowGate.Reference

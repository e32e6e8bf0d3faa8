import FlowGate.Proofs.Translation

/-!
# Translation is local

A reference ends in front of a character that no reference goes on with, whatever brackets are open
(`scan_append`). So a text in front of such a character is cut into its own pieces, and what follows
is cut as if it stood alone (`pieces_append`). Nothing that is written on one side of such a
character changes how the references on the other side are read.
-/

set_option autoImplicit false

namespace FlowGate

namespace Reference

/-- No reference goes on into the text. -/
def EndsReference (rest : List Char) : Prop :=
  ∀ c ∈ rest.head?, isReferenceChar c = false

section Append

variable {rest : List Char}

theorem EndsReference.ends (h : EndsReference rest) : Ends rest := by
  intro c hc
  have hreference := h c hc
  simp only [isReferenceChar, Bool.or_eq_false_iff] at hreference
  exact hreference.1.1

/-- Brackets that are open do not reach over the end of a text. -/
theorem scanBrackets_of_endsReference (h : EndsReference rest) (depth : Nat) :
    scanBrackets depth rest = ([], depth, rest) := by
  cases rest with
  | nil => rfl
  | cons c rest =>
    have hc : isReferenceChar c = false := h c rfl
    simp only [isReferenceChar, Bool.or_eq_false_iff, beq_eq_false_iff_ne] at hc
    obtain ⟨⟨hname, hopen⟩, hclose⟩ := hc
    rw [scanBrackets, if_neg fun hbracket ↦ hopen hbracket.1,
      if_neg fun hbracket ↦ hclose hbracket.1, if_neg (by simp [hname])]

theorem scanBrackets_append_of_ends (h : EndsReference rest) (depth : Nat) (cs : List Char) :
    scanBrackets depth (cs ++ rest) =
      ((scanBrackets depth cs).1, (scanBrackets depth cs).2.1,
        (scanBrackets depth cs).2.2 ++ rest) := by
  fun_induction scanBrackets depth cs with
  | case1 depth => exact scanBrackets_of_endsReference h depth
  | case2 depth c cs hopen taken left more heq ih =>
    rw [heq] at ih
    rw [List.cons_append, scanBrackets, if_pos hopen, ih]
  | case3 depth c cs hopen hclose taken left more heq ih =>
    rw [heq] at ih
    rw [List.cons_append, scanBrackets, if_neg hopen, if_pos hclose, ih]
  | case4 depth c cs hopen hclose hname taken left more heq ih =>
    rw [heq] at ih
    rw [List.cons_append, scanBrackets, if_neg hopen, if_neg hclose, if_pos hname, ih]
  | case5 depth c cs hopen hclose hname =>
    rw [List.cons_append, scanBrackets, if_neg hopen, if_neg hclose, if_neg hname]

/-- A reference is read alike in front of a text that it does not go on into. -/
theorem scan_append (h : EndsReference rest) (cs : List Char) :
    scan (cs ++ rest) = ⟨(scan cs).text, (scan cs).name, (scan cs).rest ++ rest⟩ := by
  by_cases hbracket : ∃ others, cs = '[' :: others
  · obtain ⟨others, rfl⟩ := hbracket
    rw [List.cons_append, scan_bracket, scan_bracket, scanBrackets_append_of_ends h]
  · have hcs : ∀ others, cs ≠ '[' :: others := fun others heq ↦ hbracket ⟨others, heq⟩
    have happend : ∀ others, cs ++ rest ≠ '[' :: others := by
      intro others heq
      cases cs with
      | nil =>
        have hopen : isReferenceChar '[' = false := h '[' (congrArg List.head? heq)
        exact absurd hopen (by decide)
      | cons c cs =>
        obtain ⟨rfl, -⟩ := List.cons.inj heq
        exact hcs cs rfl
    obtain ⟨htake, hdrop⟩ := takeWhile_append_of_head cs h.ends
    rw [scan_of_ne happend, scan_of_ne hcs, htake, hdrop]

/-- A text is cut into its own pieces in front of a text that no reference goes on into. -/
theorem pieces_append (h : EndsReference rest) (cs : List Char) :
    pieces (cs ++ rest) = pieces cs ++ pieces rest := by
  induction cs using pieces_induction with
  | nil => rw [pieces_nil, List.nil_append, List.nil_append]
  | plain c cs hc ih =>
    rw [List.cons_append, pieces_of_ne hc, pieces_of_ne hc, ih, List.cons_append]
  | unnamed cs hname ih =>
    have hscan := scan_append h cs
    rw [List.cons_append, pieces_of_unnamed (by rwa [hscan]), pieces_of_unnamed hname, hscan, ih,
      List.cons_append]
  | named cs hname ih =>
    have hscan := scan_append h cs
    rw [List.cons_append, pieces_of_named (by rwa [hscan]), pieces_of_named hname, hscan, ih,
      List.cons_append]

theorem names_append (h : EndsReference rest) (cs : List Char) :
    names (cs ++ rest) = names cs ++ names rest := by
  rw [names, pieces_append h, List.filterMap_append]
  rfl

theorem rewrite_append (h : EndsReference rest) (cs : List Char) :
    rewrite (cs ++ rest) = rewrite cs ++ rewrite rest := by
  rw [rewrite, pieces_append h, List.flatMap_append]
  rfl

end Append

end Reference

open Reference

/-- Two texts with a character between them that is no ASCII letter or digit, point, underscore,
`$` or bracket are translated one by one: the references of the first come first and then those of
the second, and the rewritten texts stand around the character. -/
theorem translate_separated (first second : String) (c : Char) (halphanum : c.isAlphanum = false)
    (hsign : c ∉ ['.', '_', '$', '[', ']']) :
    (translate (first ++ String.singleton c ++ second)).attributes =
        (translate first).attributes ++ (translate second).attributes ∧
      (translate (first ++ String.singleton c ++ second)).rewritten =
        (translate first).rewritten ++ String.singleton c ++ (translate second).rewritten := by
  simp only [List.mem_cons, List.not_mem_nil, or_false, not_or] at hsign
  obtain ⟨hpoint, hunderscore, hdollar, hopen, hclose⟩ := hsign
  have hends : EndsReference (c :: second.toList) := by
    intro d hd
    obtain rfl := Option.mem_some.mp hd
    simp [isReferenceChar, isNameChar, halphanum, hpoint, hunderscore, hopen, hclose]
  have htext : (first ++ String.singleton c ++ second).toList =
      first.toList ++ c :: second.toList := by
    simp
  simp only [translate_eq, htext]
  constructor
  · rw [names_append hends, names_of_ne hdollar]
  · rw [rewrite_append hends, rewrite_of_ne hdollar, String.ofList_append, String.ofList_cons,
      String.append_assoc]

/-- Brackets that are left open end in front of a letter that is not ASCII. -/
theorem translate_separated_openBracket :
    'é'.isAlphanum = false ∧ 'é' ∉ ['.', '_', '$', '[', ']'] ∧
      (translate ("$[a[" ++ String.singleton 'é' ++ "$b]")).attributes = ["a[", "b"] ∧
      (translate ("$[a[" ++ String.singleton 'é' ++ "$b]")).rewritten =
        "lookup(\"a[\")élookup(\"b\")]" := by
  have hfirst : names "$[a[".toList = ["a["] ∧ rewrite "$[a[".toList = "lookup(\"a[\")".toList := by
    have hopen : scan "[a[".toList = ⟨"[a[".toList, "a[".toList, []⟩ := rfl
    have hname : (scan "[a[".toList).name ≠ [] := by
      rw [hopen]
      decide
    constructor
    · show names ('$' :: "[a[".toList) = _
      rw [names_of_named hname, hopen, names_nil, String.ofList_toList]
    · show rewrite ('$' :: "[a[".toList) = _
      rw [rewrite_of_named hname, hopen, rewrite_nil]
      rfl
  have hsecond : names "$b]".toList = ["b"] ∧ rewrite "$b]".toList = "lookup(\"b\")]".toList := by
    have htext : "$b]".toList = '$' :: ("b".toList ++ [']']) := rfl
    have hends : Ends [']'] := by
      intro c hc
      obtain rfl := Option.mem_some.mp hc
      rfl
    rw [htext]
    constructor
    · rw [names_reference (by decide) (List.all_eq_true.mp rfl) hends, names_of_ne (by decide),
        names_nil, String.ofList_toList]
    · rw [rewrite_reference (by decide) (List.all_eq_true.mp rfl) hends,
        rewrite_of_ne (by decide), rewrite_nil]
      rfl
  have halphanum : 'é'.isAlphanum = false := rfl
  have hsign : 'é' ∉ ['.', '_', '$', '[', ']'] := by decide
  obtain ⟨hattributes, hrewritten⟩ := translate_separated "$[a[" "$b]" 'é' halphanum hsign
  simp only [translate_eq, hfirst, hsecond] at hattributes hrewritten
  exact ⟨halphanum, hsign, hattributes, hrewritten⟩

end FlowGate

import FlowGate.Proofs.Runs
import FlowGate.Reference
import Mathlib.Tactic.ByContra

/-!
# What translating a text does to it

`names` and `rewrite` are the two halves of a translation over lists of characters. One lemma for
each kind of piece says how they unfold, and the rest is about the words in the rewritten text. A
word without an `l` or a `$` at the start of the rewritten text stands at the start of the text
(`prefix_of_prefix_rewrite`). If the text does not contain `lookup`, then each `lookup` in the
rewritten text begins an inserted look-up (`lookup_of_rewrite`).
-/

set_option autoImplicit false

namespace FlowGate.Reference

/-- The names that a text mentions, in order of appearance. -/
def names (cs : List Char) : List String :=
  (pieces cs).filterMap Piece.name?

/-- The text with a look-up in place of each reference. -/
def rewrite (cs : List Char) : List Char :=
  (pieces cs).flatMap Piece.rewritten

/-- A translation is made of the names and the rewritten text. -/
theorem translate_eq (text : String) :
    translate text = ⟨names text.toList, String.ofList (rewrite text.toList)⟩ :=
  rfl

/-! ### Pieces one by one -/

theorem scan_bracket (cs : List Char) :
    scan ('[' :: cs) = ⟨'[' :: (scanBrackets 1 cs).1,
      if (scanBrackets 1 cs).2.1 = 0 then (scanBrackets 1 cs).1.dropLast else (scanBrackets 1 cs).1,
      (scanBrackets 1 cs).2.2⟩ :=
  rfl

theorem scan_of_ne {cs : List Char} (h : ∀ rest, cs ≠ '[' :: rest) :
    scan cs = ⟨cs.takeWhile isNameChar, cs.takeWhile isNameChar, cs.dropWhile isNameChar⟩ := by
  unfold scan
  split
  · exact absurd rfl (h _)
  · rfl

theorem pieces_nil : pieces [] = [] := by
  rw [pieces]

theorem pieces_of_ne {c : Char} (h : c ≠ '$') (cs : List Char) :
    pieces (c :: cs) = .plain [c] :: pieces cs := by
  rw [pieces, if_neg h]

theorem pieces_of_unnamed {cs : List Char} (h : (scan cs).name = []) :
    pieces ('$' :: cs) = .plain ('$' :: (scan cs).text) :: pieces (scan cs).rest := by
  rw [pieces, if_pos rfl, if_pos h]

theorem pieces_of_named {cs : List Char} (h : (scan cs).name ≠ []) :
    pieces ('$' :: cs) = .mention (scan cs).text (scan cs).name :: pieces (scan cs).rest := by
  rw [pieces, if_pos rfl, if_neg h]

/-- A look-up in front of a text, character by character. -/
theorem lookupForm_append (name rest : List Char) :
    Piece.lookupForm name ++ rest =
      "lookup".toList ++ '(' :: '"' :: (name ++ '"' :: ')' :: rest) := by
  have hopen : "lookup(\"".toList = "lookup".toList ++ ['(', '"'] := rfl
  have hclose : "\")".toList = ['"', ')'] := rfl
  show ("lookup(\"".toList ++ name ++ "\")".toList) ++ rest = _
  rw [hopen, hclose]
  simp only [List.append_assoc, List.cons_append, List.nil_append]

@[simp]
theorem names_nil : names [] = [] := by
  rw [names, pieces_nil, List.filterMap_nil]

@[simp]
theorem rewrite_nil : rewrite [] = [] := by
  rw [rewrite, pieces_nil, List.flatMap_nil]

theorem names_of_ne {c : Char} (h : c ≠ '$') (cs : List Char) : names (c :: cs) = names cs := by
  rw [names, pieces_of_ne h]
  rfl

theorem rewrite_of_ne {c : Char} (h : c ≠ '$') (cs : List Char) :
    rewrite (c :: cs) = c :: rewrite cs := by
  rw [rewrite, pieces_of_ne h]
  rfl

theorem names_of_unnamed {cs : List Char} (h : (scan cs).name = []) :
    names ('$' :: cs) = names (scan cs).rest := by
  rw [names, pieces_of_unnamed h]
  rfl

theorem rewrite_of_unnamed {cs : List Char} (h : (scan cs).name = []) :
    rewrite ('$' :: cs) = '$' :: ((scan cs).text ++ rewrite (scan cs).rest) := by
  rw [rewrite, pieces_of_unnamed h]
  rfl

theorem names_of_named {cs : List Char} (h : (scan cs).name ≠ []) :
    names ('$' :: cs) = String.ofList (scan cs).name :: names (scan cs).rest := by
  rw [names, pieces_of_named h]
  rfl

theorem rewrite_of_named {cs : List Char} (h : (scan cs).name ≠ []) :
    rewrite ('$' :: cs) = Piece.lookupForm (scan cs).name ++ rewrite (scan cs).rest := by
  rw [rewrite, pieces_of_named h]
  rfl

/-- Induction over a text piece by piece. -/
theorem pieces_induction {P : List Char → Prop} (nil : P [])
    (plain : ∀ c cs, c ≠ '$' → P cs → P (c :: cs))
    (unnamed : ∀ cs, (scan cs).name = [] → P (scan cs).rest → P ('$' :: cs))
    (named : ∀ cs, (scan cs).name ≠ [] → P (scan cs).rest → P ('$' :: cs)) (cs : List Char) :
    P cs := by
  fun_induction pieces cs with
  | case1 => exact nil
  | case2 cs scanned _ h ih => exact unnamed cs h ih
  | case3 cs scanned _ h ih => exact named cs h ih
  | case4 c cs h ih => exact plain c cs h ih

/-- A text without references is left as it is. -/
theorem rewrite_append_of_plain {text : List Char} (h : '$' ∉ text) (rest : List Char) :
    rewrite (text ++ rest) = text ++ rewrite rest := by
  induction text with
  | nil => rfl
  | cons c text ih =>
    obtain ⟨hc, htext⟩ := not_or.mp (fun hmem ↦ h (List.mem_cons.mpr hmem))
    rw [List.cons_append, rewrite_of_ne (Ne.symm hc), ih htext, List.cons_append]

theorem names_append_of_plain {text : List Char} (h : '$' ∉ text) (rest : List Char) :
    names (text ++ rest) = names rest := by
  induction text with
  | nil => rfl
  | cons c text ih =>
    obtain ⟨hc, htext⟩ := not_or.mp (fun hmem ↦ h (List.mem_cons.mpr hmem))
    rw [List.cons_append, names_of_ne (Ne.symm hc), ih htext]

/-- No name goes on into the text. -/
def Ends (rest : List Char) : Prop :=
  ∀ c ∈ rest.head?, isNameChar c = false

/-- A name is read up to where no name goes on. -/
theorem scan_name {name rest : List Char} (hne : name ≠ [])
    (hname : ∀ c ∈ name, isNameChar c = true) (hrest : Ends rest) :
    scan (name ++ rest) = ⟨name, name, rest⟩ := by
  have hbracket : ∀ others, name ++ rest ≠ '[' :: others := by
    intro others heq
    cases name with
    | nil => exact hne rfl
    | cons c name =>
      obtain ⟨rfl, -⟩ := List.cons.inj heq
      have hc := hname '[' List.mem_cons_self
      exact absurd hc (by decide)
  obtain ⟨htake, hdrop⟩ := takeWhile_append_of_stop hname hrest
  rw [scan_of_ne hbracket, htake, hdrop]

theorem rewrite_reference {name rest : List Char} (hne : name ≠ [])
    (hname : ∀ c ∈ name, isNameChar c = true) (hrest : Ends rest) :
    rewrite ('$' :: (name ++ rest)) = Piece.lookupForm name ++ rewrite rest := by
  have hscan := scan_name hne hname hrest
  rw [rewrite_of_named (by rwa [hscan]), hscan]

theorem names_reference {name rest : List Char} (hne : name ≠ [])
    (hname : ∀ c ∈ name, isNameChar c = true) (hrest : Ends rest) :
    names ('$' :: (name ++ rest)) = String.ofList name :: names rest := by
  have hscan := scan_name hne hname hrest
  rw [names_of_named (by rwa [hscan]), hscan]

/-! ### The characters of a reference -/

/-- Whether a character may stand in a reference after its `$`. -/
def isReferenceChar (c : Char) : Bool :=
  isNameChar c || c == '[' || c == ']'

theorem isReferenceChar_of_isNameChar {c : Char} (h : isNameChar c = true) :
    isReferenceChar c = true := by
  simp [isReferenceChar, h]

/-- The characters of references stand for themselves between double quotes. -/
theorem ne_of_isReferenceChar {c : Char} (h : isReferenceChar c = true) : c ≠ '"' ∧ c ≠ '\\' := by
  constructor <;> rintro rfl <;> cases h

/-- What is read in brackets is made of the characters of references. -/
theorem isReferenceChar_of_mem_scanBrackets {depth : Nat} {cs : List Char} {c : Char}
    (h : c ∈ (scanBrackets depth cs).1) : isReferenceChar c = true := by
  fun_induction scanBrackets depth cs with
  | case1 => cases h
  | case2 depth d cs hopen taken left rest heq ih =>
    rcases List.mem_cons.mp h with rfl | h
    · rw [hopen.1]
      rfl
    · exact ih (by rwa [heq])
  | case3 depth d cs _ hclose taken left rest heq ih =>
    rcases List.mem_cons.mp h with rfl | h
    · rw [hclose.1]
      rfl
    · exact ih (by rwa [heq])
  | case4 depth d cs _ _ hname taken left rest heq ih =>
    rcases List.mem_cons.mp h with rfl | h
    · exact isReferenceChar_of_isNameChar hname
    · exact ih (by rwa [heq])
  | case5 => cases h

/-- The text of a reference is made of the characters of references. -/
theorem isReferenceChar_of_mem_text {cs : List Char} {c : Char} (h : c ∈ (scan cs).text) :
    isReferenceChar c = true := by
  unfold scan at h
  split at h
  · rcases List.mem_cons.mp h with rfl | h
    · rfl
    · exact isReferenceChar_of_mem_scanBrackets h
  · exact isReferenceChar_of_isNameChar (List.all_eq_true.mp List.all_takeWhile c h)

/-- A name stands in the text of its reference in one piece. -/
theorem name_infix_text (cs : List Char) : (scan cs).name <:+: (scan cs).text := by
  unfold scan
  split
  · refine List.IsInfix.trans ?_ (List.suffix_cons _ _).isInfix
    dsimp only
    split
    · exact (List.dropLast_prefix _).isInfix
    · exact List.infix_rfl
  · exact List.infix_rfl

theorem text_isInfix (cs : List Char) : (scan cs).text <:+: cs :=
  ⟨[], (scan cs).rest, text_append_rest cs⟩

theorem rest_suffix (cs : List Char) : (scan cs).rest <:+ cs :=
  ⟨(scan cs).text, text_append_rest cs⟩

theorem isReferenceChar_of_mem_name {cs : List Char} {c : Char} (h : c ∈ (scan cs).name) :
    isReferenceChar c = true :=
  isReferenceChar_of_mem_text ((name_infix_text cs).subset h)

/-- The brackets that are taken account for the change of the brackets that are open. -/
theorem count_scanBrackets (depth : Nat) (cs : List Char) :
    (scanBrackets depth cs).2.1 + (scanBrackets depth cs).1.count ']' =
      depth + (scanBrackets depth cs).1.count '[' := by
  fun_induction scanBrackets depth cs with
  | case1 => rfl
  | case2 depth d cs hopen taken left rest heq ih =>
    rw [heq] at ih
    dsimp only at ih ⊢
    rw [hopen.1, List.count_cons_self, List.count_cons_of_ne (by decide)]
    omega
  | case3 depth d cs _ hclose taken left rest heq ih =>
    rw [heq] at ih
    dsimp only at ih ⊢
    rw [hclose.1, List.count_cons_self, List.count_cons_of_ne (by decide)]
    omega
  | case4 depth d cs _ _ hname taken left rest heq ih =>
    have hbrackets : d ≠ '[' ∧ d ≠ ']' := by
      constructor <;> rintro rfl <;> simp [isNameChar] at hname
    rw [heq] at ih
    dsimp only at ih ⊢
    rw [List.count_cons_of_ne hbrackets.1, List.count_cons_of_ne hbrackets.2]
    exact ih
  | case5 => rfl

/-- A reference without a name is empty, or brackets with nothing in them. -/
theorem text_eq_of_unnamed {cs : List Char} (h : (scan cs).name = []) :
    (scan cs).text = [] ∨ (scan cs).text = ['['] ∨ (scan cs).text = ['[', ']'] := by
  by_cases hbracket : ∃ rest, cs = '[' :: rest
  · obtain ⟨rest, rfl⟩ := hbracket
    have hcount := count_scanBrackets 1 rest
    rw [scan_bracket] at h ⊢
    generalize (scanBrackets 1 rest).1 = taken, (scanBrackets 1 rest).2.1 = left at h hcount ⊢
    dsimp only at h ⊢
    right
    split at h
    · -- the bracket is closed, so that what is dropped is the bracket that closes it
      have hlength : taken.length ≤ 1 := by
        have := congrArg List.length h
        simp only [List.length_dropLast, List.length_nil] at this
        omega
      right
      cases taken with
      | nil => simp only [List.count_nil] at hcount; omega
      | cons c others =>
        obtain rfl := List.length_eq_zero_iff.mp (Nat.le_zero.mp (Nat.le_of_succ_le_succ hlength))
        have hclose : c = ']' := by
          by_contra hne
          rw [List.count_singleton, beq_false_of_ne hne] at hcount
          simp only [Bool.false_eq_true, if_false] at hcount
          omega
        rw [hclose]
    · left
      rw [h]
  · rw [scan_of_ne fun rest heq ↦ hbracket ⟨rest, heq⟩] at h ⊢
    left
    exact h

/-- A reference without a name has brackets in its text at most. -/
theorem text_of_unnamed {cs : List Char} (h : (scan cs).name = []) {c : Char}
    (hc : c ∈ (scan cs).text) : c = '[' ∨ c = ']' := by
  have hsub : (scan cs).text ⊆ ['[', ']'] := by
    rcases text_eq_of_unnamed h with htext | htext | htext <;> simp [htext]
  simpa using hsub hc

/-! ### Words in the rewritten text -/

/-- A word without an `l` or a `$` at the start of the rewritten text starts the text as well. -/
theorem prefix_of_prefix_rewrite {word cs : List Char} (hletter : 'l' ∉ word)
    (hdollar : '$' ∉ word) (h : word <+: rewrite cs) : word <+: cs := by
  induction word generalizing cs with
  | nil => exact List.nil_prefix
  | cons w word ih =>
    have hrest : 'l' ∉ word ∧ '$' ∉ word :=
      ⟨List.not_mem_of_not_mem_cons hletter, List.not_mem_of_not_mem_cons hdollar⟩
    induction cs using pieces_induction with
    | nil =>
      rw [rewrite_nil] at h
      exact h
    | plain c cs hc _ =>
      rw [rewrite_of_ne hc] at h
      obtain ⟨rfl, hprefix⟩ := List.cons_prefix_cons.mp h
      exact List.cons_prefix_cons.mpr ⟨rfl, ih hrest.1 hrest.2 hprefix⟩
    | unnamed cs hname _ =>
      rw [rewrite_of_unnamed hname] at h
      exact absurd (List.cons_prefix_cons.mp h).1.symm (List.ne_of_not_mem_cons hdollar)
    | named cs hname _ =>
      rw [rewrite_of_named hname] at h
      exact absurd (List.cons_prefix_cons.mp h).1.symm (List.ne_of_not_mem_cons hletter)

/-- Unless the text contains `lookup`, each `lookup` in the rewritten text begins the look-up of a
name that the text mentions. -/
theorem lookup_of_rewrite {cs front back : List Char} (hcs : ¬"lookup".toList <:+: cs)
    (h : rewrite cs = front ++ ("lookup".toList ++ back)) :
    ∃ name rest, String.ofList name ∈ names cs ∧ (∀ c ∈ name, isReferenceChar c = true) ∧
      back = '(' :: '"' :: (name ++ '"' :: ')' :: rest) := by
  induction cs using pieces_induction generalizing front with
  | nil =>
    rw [rewrite_nil] at h
    simp at h
  | plain c cs hc ih =>
    have hsuffix : ¬"lookup".toList <:+: cs := by
      intro hoccurs
      exact hcs (hoccurs.trans (List.suffix_cons c cs).isInfix)
    rw [rewrite_of_ne hc] at h
    cases front with
    | nil =>
      obtain ⟨rfl, hrest⟩ := List.cons.inj h
      have hprefix : "ookup".toList <+: rewrite cs := ⟨back, hrest.symm⟩
      have hword : "ookup".toList <+: cs := prefix_of_prefix_rewrite (by decide) (by decide) hprefix
      exact absurd (List.cons_prefix_cons.mpr ⟨rfl, hword⟩).isInfix hcs
    | cons d front =>
      rw [names_of_ne hc]
      exact ih hsuffix (List.cons.inj h).2
  | unnamed cs hname ih =>
    have hsuffix : ¬"lookup".toList <:+: (scan cs).rest := by
      intro hoccurs
      exact hcs (hoccurs.trans ((rest_suffix cs).trans (List.suffix_cons _ _)).isInfix)
    have htext : 'l' ∉ '$' :: (scan cs).text := by
      intro hmem
      rcases List.mem_cons.mp hmem with heq | hmem
      · cases heq
      · rcases text_of_unnamed hname hmem with heq | heq <;> cases heq
    rw [rewrite_of_unnamed hname, ← List.cons_append] at h
    obtain ⟨later, hlater⟩ := exists_of_append_eq htext h
    rw [names_of_unnamed hname]
    exact ih hsuffix hlater
  | named cs hname ih =>
    have hsuffix : ¬"lookup".toList <:+: (scan cs).rest := by
      intro hoccurs
      exact hcs (hoccurs.trans ((rest_suffix cs).trans (List.suffix_cons _ _)).isInfix)
    have hinname : ¬"lookup".toList <:+: (scan cs).name := by
      intro hoccurs
      exact hcs (hoccurs.trans ((name_infix_text cs).trans
        ((text_isInfix cs).trans (List.suffix_cons _ _).isInfix)))
    rw [rewrite_of_named hname, lookupForm_append] at h
    rw [names_of_named hname]
    cases front with
    | nil =>
      have hback := List.append_cancel_left h
      exact ⟨(scan cs).name, rewrite (scan cs).rest, List.mem_cons_self,
        fun c ↦ isReferenceChar_of_mem_name, hback.symm⟩
    | cons d front =>
      have htail : "ookup(\"".toList ++ ((scan cs).name ++ '"' :: ')' :: rewrite (scan cs).rest) =
          front ++ ("lookup".toList ++ back) := (List.cons.inj h).2
      obtain ⟨later, hlater⟩ := exists_of_append_eq (by decide) htail
      -- the word cannot reach over the closing quote of the look-up
      obtain hoccurs | ⟨last, hlast⟩ := infix_or_exists_of_append_cons_eq (by decide) hlater
      · exact absurd hoccurs hinname
      · have hclose : [')'] ++ rewrite (scan cs).rest = last ++ ("lookup".toList ++ back) := hlast
        obtain ⟨left, hleft⟩ := exists_of_append_eq (by decide) hclose
        obtain ⟨name, rest, hmem, hchars, hback⟩ := ih hsuffix hleft
        exact ⟨name, rest, List.mem_cons_of_mem _ hmem, hchars, hback⟩

end FlowGate.Reference

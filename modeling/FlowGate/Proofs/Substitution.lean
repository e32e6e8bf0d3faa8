import FlowGate.Proofs.ReferenceRuns

/-!
# A translation as a substitution

A `Division` of a text takes it apart into references and the text around them: a `Cut` is the run
of one reference, the name in it and the text up to the next one. What is taken is the longest run
after a `$`, and no `$` outside the runs starts a reference.

`exists_division` divides a text in step with `pieces`, and `translate_substitutes` puts look-ups in
the places of the runs and nowhere else.
-/

set_option autoImplicit false

namespace FlowGate.Reference

/-- A reference in a text without its `$`, the name in it, and the text up to the next one. -/
structure Cut where
  run : List Char
  name : List Char
  after : List Char

namespace Cut

/-- The part of the text that a reference and what follows it are. -/
def source (cut : Cut) : List Char :=
  '$' :: (cut.run ++ cut.after)

/-- The part with a look-up in place of the reference. -/
def replaced (cut : Cut) : List Char :=
  Piece.lookupForm cut.name ++ cut.after

def attributeName (cut : Cut) : String :=
  String.ofList cut.name

end Cut

/-- Each `$` of a text starts no reference when the text is followed by the rest. -/
def Plain (text rest : List Char) : Prop :=
  ∀ front back, text = front ++ '$' :: back → StartsNone (utf8 (back ++ rest))

/-- A reference is as long as it can be, and it has a name. The name is all of a run without
brackets around it, and all but the first bracket of a run that leaves that bracket open. -/
structure Cut.Fits (cut : Cut) (rest : List Char) : Prop where
  longest : LongestRun (utf8 cut.run) (utf8 (cut.run ++ cut.after ++ rest))
  named : cut.name ≠ []
  inside : cut.name <:+: cut.run
  whole : (∀ body, cut.run ≠ '[' :: body) → cut.name = cut.run
  unclosed : ∀ body, cut.run = '[' :: body → EndsOpen (utf8 cut.run) → cut.name = body
  plain : Plain cut.after rest

/-- A text taken apart into its references and the text around them. -/
structure Division (cs : List Char) where
  lead : List Char
  cuts : List Cut
  source_eq : lead ++ cuts.flatMap Cut.source = cs
  plain : Plain lead (cuts.flatMap Cut.source)
  fits : ∀ done cut rest, cuts = done ++ cut :: rest → cut.Fits (rest.flatMap Cut.source)

theorem plain_nil (rest : List Char) : Plain [] rest := by
  intro front back h
  simp at h

theorem plain_cons_of_ne {c : Char} (hc : c ≠ '$') {text rest : List Char} (h : Plain text rest) :
    Plain (c :: text) rest := by
  intro front back heq
  cases front with
  | nil => exact absurd (List.cons.inj heq).1 hc
  | cons d front => exact h front back (List.cons.inj heq).2

theorem plain_append_of_not_mem {text more rest : List Char} (htext : '$' ∉ text)
    (h : Plain more rest) : Plain (text ++ more) rest := by
  induction text with
  | nil => exact h
  | cons c text ih =>
    obtain ⟨hc, htext⟩ := not_or.mp (fun hmem ↦ htext (List.mem_cons.mpr hmem))
    exact plain_cons_of_ne (Ne.symm hc) (ih htext)

/-- A `$` without a name after it is plain text, with the brackets that follow it. -/
theorem plain_of_unnamed {cs more rest : List Char} (hname : (scan cs).name = [])
    (hrest : (scan cs).rest = more ++ rest) (h : Plain more rest) :
    Plain ('$' :: ((scan cs).text ++ more)) rest := by
  intro front back heq
  cases front with
  | nil =>
    obtain rfl := (List.cons.inj heq).2
    rw [List.append_assoc, ← hrest, text_append_rest]
    exact startsNone_of_unnamed hname
  | cons d front =>
    have htext : '$' ∉ (scan cs).text := by
      intro hmem
      rcases text_of_unnamed hname hmem with hbracket | hbracket <;> cases hbracket
    exact plain_append_of_not_mem htext h front back (List.cons.inj heq).2

/-- The name in brackets that are not closed is all that follows the first bracket. -/
theorem name_of_endsOpen {cs body : List Char} (hbody : (scan cs).text = '[' :: body)
    (hopen : EndsOpen (utf8 (scan cs).text)) : (scan cs).name = body := by
  by_cases hbracket : ∃ others, cs = '[' :: others
  · obtain ⟨others, rfl⟩ := hbracket
    have hcount := count_scanBrackets 1 others
    rw [EndsOpen, count_utf8 (by decide), count_utf8 (by decide)] at hopen
    rw [scan_bracket] at hbody hopen ⊢
    generalize (scanBrackets 1 others).1 = taken, (scanBrackets 1 others).2.1 = left
      at hbody hopen hcount ⊢
    dsimp only at hbody hopen ⊢
    rw [List.count_cons_self, List.count_cons_of_ne (by decide)] at hopen
    rw [if_neg (by omega)]
    exact (List.cons.inj hbody).2
  · -- without a bracket in front, the text is a run of characters of names
    rw [scan_of_ne fun others heq ↦ hbracket ⟨others, heq⟩] at hbody
    have hname : isNameChar '[' = true :=
      List.all_eq_true.mp List.all_takeWhile '[' (hbody ▸ List.mem_cons_self)
    exact absurd hname (by decide)

/-- The reference that is read after a `$` fits. -/
theorem fits_scan {cs after rest : List Char} (hname : (scan cs).name ≠ [])
    (hrest : (scan cs).rest = after ++ rest) (hplain : Plain after rest) :
    (⟨(scan cs).text, (scan cs).name, after⟩ : Cut).Fits rest where
  longest := by
    dsimp only
    rw [List.append_assoc, ← hrest, text_append_rest]
    exact longestRun_scan cs
  named := hname
  inside := name_infix_text cs
  whole := by
    intro hbracket
    by_cases h : ∃ others, cs = '[' :: others
    · obtain ⟨others, rfl⟩ := h
      exact absurd rfl (hbracket _)
    · rw [scan_of_ne fun others heq ↦ h ⟨others, heq⟩]
  unclosed := fun _ ↦ name_of_endsOpen
  plain := hplain

/-- Every text is divided so that translating it replaces the references one by one. -/
theorem exists_division (cs : List Char) :
    ∃ parts : Division cs, rewrite cs = parts.lead ++ parts.cuts.flatMap Cut.replaced ∧
      names cs = parts.cuts.map Cut.attributeName := by
  induction cs using pieces_induction with
  | nil => exact ⟨⟨[], [], rfl, plain_nil _, by simp⟩, by simp, by simp⟩
  | plain c cs hc ih =>
    obtain ⟨⟨lead, cuts, rfl, hplain, hfits⟩, hrewrite, hnames⟩ := ih
    refine ⟨⟨c :: lead, cuts, rfl, plain_cons_of_ne hc hplain, hfits⟩, ?_, ?_⟩
    · rw [rewrite_of_ne hc, hrewrite]
      rfl
    · rw [names_of_ne hc, hnames]
  | unnamed cs hname ih =>
    obtain ⟨⟨lead, cuts, hsource, hplain, hfits⟩, hrewrite, hnames⟩ := ih
    refine ⟨⟨'$' :: ((scan cs).text ++ lead), cuts, ?_, ?_, hfits⟩, ?_, ?_⟩
    · rw [List.cons_append, List.append_assoc, hsource, text_append_rest]
    · exact plain_of_unnamed hname hsource.symm hplain
    · rw [rewrite_of_unnamed hname, hrewrite]
      simp only [List.cons_append, List.append_assoc]
    · rw [names_of_unnamed hname, hnames]
  | named cs hname ih =>
    obtain ⟨⟨lead, cuts, hsource, hplain, hfits⟩, hrewrite, hnames⟩ := ih
    have hfirst := fits_scan hname hsource.symm hplain
    refine ⟨⟨[], ⟨(scan cs).text, (scan cs).name, lead⟩ :: cuts, ?_, plain_nil _, ?_⟩, ?_, ?_⟩
    · rw [List.nil_append, List.flatMap_cons, Cut.source, List.cons_append, List.append_assoc,
        hsource, text_append_rest]
    · intro done cut rest hcuts
      cases done with
      | nil =>
        obtain ⟨rfl, rfl⟩ := List.cons.inj hcuts
        exact hfirst
      | cons _ done => exact hfits done cut rest (List.cons.inj hcuts).2
    · rw [rewrite_of_named hname, hrewrite, List.nil_append, List.flatMap_cons, Cut.replaced,
        List.append_assoc]
    · rw [names_of_named hname, hnames]
      rfl

end FlowGate.Reference

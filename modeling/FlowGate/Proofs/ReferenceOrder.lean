import FlowGate.Proofs.LexingLocality
import FlowGate.Proofs.ReferenceLookups
import Mathlib.Data.List.Basic

/-!
# Look-ups in the order of the references

In a link text without quotes, what a look-up is called with comes from a reference. The look-ups of
a tree are the arguments of calls among its tokens (`Phrase.callArguments_tokens`). In the rewritten
text each reference puts one such call in, whatever stands around it: the word in front of the
parenthesis may have grown at its start, but it ends as a name (`exists_name_of_tokenizeFrom`), and
nothing else is quoted. So the tree looks up the mentioned names one by one
(`lookups_of_compile_translate_unquoted`).
-/

set_option autoImplicit false

namespace FlowGate

namespace Expr

/-! ### Calls among tokens -/

/-- The quoted texts that stand behind a name and a parenthesis, from left to right. -/
def callArguments : List Token → List String
  | .name _ :: .openParen :: .string argument :: rest => argument :: callArguments rest
  | _ :: rest => callArguments rest
  | [] => []

/-- No call begins with a token that is not a name. -/
theorem callArguments_cons {token : Token} (h : ∀ text, token ≠ .name text) (rest : List Token) :
    callArguments (token :: rest) = callArguments rest := by
  rw [callArguments]
  rintro text argument more rfl
  exact absurd rfl (h text)

/-- The arguments of the calls in a phrase are the names that its tree looks up, in order. -/
theorem Phrase.callArguments_tokens {level : Nat} (phrase : Phrase level) (rest : List Token) :
    callArguments (phrase.tokens ++ rest) = phrase.expr.lookups ++ callArguments rest := by
  induction phrase generalizing rest with
  | tighter phrase ih => exact ih rest
  | chain left token op joins right ihleft ihright =>
    have htoken : ∀ text, token ≠ .name text := by
      rintro text rfl
      cases joins
    show callArguments (left.tokens ++ token :: right.tokens ++ rest) =
      left.expr.lookups ++ right.expr.lookups ++ _
    rw [List.append_assoc, ihleft, List.cons_append, callArguments_cons htoken, ihright,
      List.append_assoc]
  | unary token op prefixes operand ih =>
    have htoken : ∀ text, token ≠ .name text := by
      rintro text rfl
      cases prefixes
    show callArguments (token :: (operand.tokens ++ rest)) = operand.expr.lookups ++ _
    rw [callArguments_cons htoken, ih]
  | index target key ihtarget ihkey =>
    show callArguments (target.tokens ++ .openBracket :: (key.tokens ++ [.closeBracket]) ++ rest) =
      target.expr.lookups ++ key.expr.lookups ++ _
    rw [List.append_assoc, ihtarget, List.cons_append, callArguments_cons (by simp),
      List.append_assoc, ihkey, List.singleton_append, callArguments_cons (by simp),
      List.append_assoc]
  | literal token value denotes =>
    have htoken : ∀ text, token ≠ .name text := by
      rintro text rfl
      cases denotes
    exact callArguments_cons htoken rest
  | group inner ih =>
    show callArguments (.openParen :: (inner.tokens ++ [.closeParen] ++ rest)) =
      inner.expr.lookups ++ _
    rw [callArguments_cons (by simp), List.append_assoc, ih, List.singleton_append,
      callArguments_cons (by simp)]
  | lookup name => rfl

/-- Without quoted texts there are no calls. -/
theorem callArguments_of_unquoted {tokens : List Token} (h : ∀ s, .string s ∉ tokens) :
    callArguments tokens = [] := by
  fun_induction callArguments tokens with
  | case1 text argument rest => exact absurd (by simp) (h argument)
  | case2 token rest _ ih => exact ih fun s hs ↦ h s (List.mem_cons_of_mem _ hs)
  | case3 => rfl

/-- The first call stands where the first quoted text does. -/
theorem callArguments_of_call {front : List Token} (hfront : ∀ s, .string s ∉ front)
    (text argument : String) (rest : List Token) :
    callArguments (front ++ .name text :: .openParen :: .string argument :: rest) =
      argument :: callArguments rest := by
  induction front with
  | nil => rfl
  | cons token front ih =>
    have hlater : ∀ s, .string s ∉ front := fun s hs ↦ hfront s (List.mem_cons_of_mem _ hs)
    rw [List.cons_append, callArguments, ih hlater]
    rintro _ other more - heq
    rcases front with _ | ⟨second, _ | ⟨third, later⟩⟩
    · cases heq
    · cases heq
    · obtain ⟨-, htail⟩ := List.cons.inj heq
      obtain ⟨rfl, -⟩ := List.cons.inj htail
      exact hlater other (by simp)

/-! ### Texts without quotes -/

/-- The text has no quotes. -/
def Unquoted (cs : List Char) : Prop :=
  '\'' ∉ cs ∧ '"' ∉ cs

instance (cs : List Char) : Decidable (Unquoted cs) :=
  inferInstanceAs (Decidable (_ ∧ _))

theorem Unquoted.append {cs ds : List Char} (hcs : Unquoted cs) (hds : Unquoted ds) :
    Unquoted (cs ++ ds) := by
  simp only [Unquoted, List.mem_append, not_or] at *
  exact ⟨⟨hcs.1, hds.1⟩, hcs.2, hds.2⟩

theorem Unquoted.of_subset {cs ds : List Char} (h : Unquoted ds) (hsub : cs ⊆ ds) : Unquoted cs :=
  ⟨fun hmem ↦ h.1 (hsub hmem), fun hmem ↦ h.2 (hsub hmem)⟩

theorem Unquoted.not_quote {cs : List Char} (h : Unquoted cs) {c : Char} (hc : c ∈ cs) :
    ¬(c = '\'' ∨ c = '"') := by
  rintro (rfl | rfl)
  · exact h.1 hc
  · exact h.2 hc

/-- What is left after a token has no quotes either. -/
theorem Unquoted.rest {c : Char} {cs : List Char} (h : Unquoted (c :: cs)) {scanned : Scanned}
    (hscan : scan c cs = .ok scanned) : Unquoted scanned.rest := by
  rw [← lexeme_append_rest hscan] at h
  exact h.of_subset (List.subset_append_right _ _)

theorem symbol?_ne_string (c : Char) (next : Option Char) (s : String) (more : Bool) :
    symbol? c next ≠ some (.string s, more) := by
  unfold symbol?
  grind

theorem ofWord_ne_string (word : List Char) (s : String) : Token.ofWord word ≠ .string s := by
  unfold Token.ofWord
  split <;> nofun

section Single

variable {c : Char} {cs : List Char}

/-- Only a quote begins what can miss its closing quote. -/
theorem scan_ne_unterminated (hc : ¬(c = '\'' ∨ c = '"')) :
    scan c cs ≠ .error .unterminatedString := by
  unfold scan scanNumber
  grind

/-- Only a quote begins a quoted text. -/
theorem scan_ne_string (hc : ¬(c = '\'' ∨ c = '"')) {scanned : Scanned}
    (h : scan c cs = .ok scanned) (s : String) : scanned.token ≠ .string s := by
  have hword := ofWord_ne_string
  have hsymbol := symbol?_ne_string
  unfold scan scanNumber at h
  grind

/-- A number is made of digits and points. -/
theorem mem_lexeme_of_scanNumber (hc : c.isDigit = true) {scanned : Scanned}
    (h : scanNumber c cs = .ok scanned) {d : Char} (hd : d ∈ scanned.lexeme) :
    d.isDigit = true ∨ d = '.' := by
  have hrun : ∀ ds : List Char, ∀ e ∈ ds.takeWhile Char.isDigit, e.isDigit = true :=
    fun ds ↦ List.all_eq_true.mp List.all_takeWhile
  unfold scanNumber at h
  grind

/-- No keyword ends with a `p`. -/
theorem ofWord_of_getLast? {word : List Char} (h : word.getLast? = some 'p') :
    ∃ text, Token.ofWord word = .name text := by
  have hkeyword : ∀ keyword : String, keyword.toList.getLast? ≠ some 'p' →
      String.ofList word ≠ keyword := by
    rintro keyword hlast rfl
    rw [String.toList_ofList] at hlast
    exact hlast h
  unfold Token.ofWord
  split
  case h_8 => exact ⟨_, rfl⟩
  all_goals
    rename_i heq
    exact absurd heq (hkeyword _ (by decide))

/-- A token that ends with a `p` is a name unless it is quoted. -/
theorem exists_name_of_scan (hc : ¬(c = '\'' ∨ c = '"')) {scanned : Scanned}
    (h : scan c cs = .ok scanned) (hlast : scanned.lexeme.getLast? = some 'p') :
    ∃ text, scanned.token = .name text := by
  have hmem := List.mem_of_getLast? hlast
  by_cases hdigit : c.isDigit = true
  · rw [scan, if_pos hdigit] at h
    rcases mem_lexeme_of_scanNumber hdigit h hmem with hp | hp <;> exact absurd hp (by decide)
  · by_cases hword : startsWord c = true
    · rw [scan, if_neg hdigit, if_neg hc, if_pos hword] at h
      cases h
      exact ofWord_of_getLast? hlast
    · have hfirst : 'p' ≠ c := by
        rintro rfl
        exact hword rfl
      rw [scan, if_neg hdigit, if_neg hc, if_neg hword] at h
      split at h
      · cases h
        exact absurd (List.mem_singleton.mp hmem) hfirst
      · rename_i token hsymbol
        cases h
        have hsecond := (List.mem_cons.mp hmem).resolve_left hfirst
        cases cs with
        | nil => cases hsecond
        | cons d ds =>
          obtain rfl := List.mem_singleton.mp hsecond
          rcases next_of_symbol? hsymbol with h | h | h <;>
            exact absurd (Option.some.inj h) (by decide)
      · cases h

end Single

section Unquoted

variable {position : Nat} {cs : List Char} {tokens : List TokenAt}

/-- A text without quotes does not miss a closing quote. -/
theorem tokenizeFrom_ne_unterminated (hcs : Unquoted cs) (start : Nat) :
    tokenizeFrom position cs ≠ .error (.lexical .unterminatedString start) := by
  fun_induction tokenizeFrom position cs with
  | case1 =>
    intro h
    cases h
  | case2 position c cs _ ih => exact ih (hcs.of_subset (List.subset_cons_self c cs))
  | case3 position c cs _ fault hfault =>
    intro h
    cases h
    exact scan_ne_unterminated (hcs.not_quote List.mem_cons_self) hfault
  | case4 position c cs _ scanned hscan _ ih =>
    intro h
    exact ih (hcs.rest hscan) (map_eq_error_iff.mp h)

/-- No token of a text without quotes is a quoted text. -/
theorem string_notMem_of_unquoted (hcs : Unquoted cs) (h : tokenizeFrom position cs = .ok tokens)
    (s : String) : .string s ∉ tokens.map TokenAt.token := by
  fun_induction tokenizeFrom position cs generalizing tokens with
  | case1 =>
    cases h
    exact List.not_mem_nil
  | case2 position c cs _ ih => exact ih (hcs.of_subset (List.subset_cons_self c cs)) h
  | case3 => cases h
  | case4 position c cs _ scanned hscan _ ih =>
    obtain ⟨others, hothers, rfl⟩ := map_eq_ok_iff.mp h
    rw [List.map_cons, List.mem_cons, not_or]
    exact ⟨(scan_ne_string (hcs.not_quote List.mem_cons_self) hscan s).symm,
      ih (hcs.rest hscan) hothers⟩

/-- The last token takes up the last character, unless that is blank. -/
theorem exists_last_scan {c : Char} (hblank : Text.isBlank c = false)
    (hlast : cs.getLast? = some c) (h : tokenizeFrom position cs = .ok tokens) :
    ∃ before start d ds scanned, tokens = before ++ [⟨scanned.token, start⟩] ∧ d ∈ cs ∧
      scan d ds = .ok scanned ∧ scanned.lexeme.getLast? = some c := by
  fun_induction tokenizeFrom position cs generalizing tokens with
  | case1 => cases hlast
  | case2 position d ds hd ih =>
    have hlater : ds.getLast? = some c := by
      rcases List.getLast?_eq_some_iff.mp hlast with ⟨front, hfront⟩
      rcases List.cons_eq_append_iff.mp hfront with ⟨-, hsingle⟩ | ⟨others, -, rfl⟩
      · obtain ⟨rfl, -⟩ := List.cons.inj hsingle
        rw [hd] at hblank
        cases hblank
      · exact List.getLast?_concat
    obtain ⟨before, start, e, es, scanned, rfl, he, hscan, hend⟩ := ih hlater h
    exact ⟨before, start, e, es, scanned, rfl, List.mem_cons_of_mem d he, hscan, hend⟩
  | case3 => cases h
  | case4 position d ds _ scanned hscan _ ih =>
    obtain ⟨others, hothers, rfl⟩ := map_eq_ok_iff.mp h
    rw [← lexeme_append_rest hscan] at hlast
    by_cases hrest : scanned.rest = []
    · rw [hrest, tokenizeFrom_nil] at hothers
      cases hothers
      rw [hrest, List.append_nil] at hlast
      exact ⟨[], position, d, ds, scanned, rfl, List.mem_cons_self, hscan, hlast⟩
    · rw [List.getLast?_append_of_ne_nil _ hrest] at hlast
      obtain ⟨before, start, e, es, last, rfl, he, hlexeme, hend⟩ := ih hlast hothers
      refine ⟨_ :: before, start, e, es, last, rfl, ?_, hlexeme, hend⟩
      rw [← lexeme_append_rest hscan]
      exact List.mem_append_right _ he

end Unquoted

/-- A text without quotes that ends with `lookup` ends with a name. -/
theorem exists_name_of_tokenizeFrom {position : Nat} {front : List Char} {tokens : List TokenAt}
    (hfront : Unquoted front) (h : tokenizeFrom position (front ++ "lookup".toList) = .ok tokens) :
    ∃ before text start, tokens = before ++ [⟨.name text, start⟩] := by
  have hwhole : Unquoted (front ++ "lookup".toList) := hfront.append (by decide)
  have hlast : (front ++ "lookup".toList).getLast? = some 'p' :=
    List.getLast?_append_of_ne_nil front (by decide)
  obtain ⟨before, start, c, cs, scanned, rfl, hc, hscan, hend⟩ := exists_last_scan rfl hlast h
  obtain ⟨text, htext⟩ := exists_name_of_scan (hwhole.not_quote hc) hscan hend
  exact ⟨before, text, start, by rw [htext]⟩

end Expr

open FlowGate.Expr FlowGate.Reference

/-- The calls in a rewritten text have the mentioned names as their arguments, in order. What stands
in front of it may run into its first word. -/
theorem callArguments_of_rewrite {cs front : List Char} (hcs : Unquoted cs)
    (hfront : Unquoted front) {position : Nat} {tokens : List TokenAt}
    (h : tokenizeFrom position (front ++ rewrite cs) = .ok tokens) :
    callArguments (tokens.map TokenAt.token) = names cs := by
  -- `front` takes up the text up to the next reference
  induction cs using pieces_induction generalizing front position tokens with
  | nil =>
    rw [rewrite_nil, List.append_nil] at h
    rw [names_nil]
    exact callArguments_of_unquoted (string_notMem_of_unquoted hfront h)
  | plain c cs hc ih =>
    have hlater : Unquoted cs := hcs.of_subset (List.subset_cons_self c cs)
    have hhead : Unquoted [c] := hcs.of_subset (by simp)
    rw [rewrite_of_ne hc, List.append_cons] at h
    rw [names_of_ne hc]
    exact ih hlater (hfront.append hhead) h
  | unnamed cs hname ih =>
    have hlater : Unquoted (scan cs).rest :=
      hcs.of_subset (List.subset_cons_of_subset _ (rest_suffix cs).subset)
    have htext : Unquoted ('$' :: (scan cs).text) := by
      refine hcs.of_subset (List.cons_subset_cons _ (text_isInfix cs).subset)
    rw [rewrite_of_unnamed hname, ← List.cons_append, ← List.append_assoc] at h
    rw [names_of_unnamed hname]
    exact ih hlater (hfront.append htext) h
  | named cs hname ih =>
    have hlater : Unquoted (scan cs).rest :=
      hcs.of_subset (List.subset_cons_of_subset _ (rest_suffix cs).subset)
    have hword : Unquoted (front ++ "lookup".toList) := hfront.append (by decide)
    rw [rewrite_of_named hname, lookupForm_append, ← List.append_assoc, tokenizeFrom_followedBy
      (separates_cons (by decide) _) (tokenizeFrom_ne_unterminated hword)] at h
    obtain ⟨called, hcalled, hbind⟩ := bind_eq_ok_iff.mp h
    obtain ⟨others, hothers, rfl⟩ := map_eq_ok_iff.mp hbind
    obtain ⟨before, text, start, rfl⟩ := exists_name_of_tokenizeFrom hfront hcalled
    obtain ⟨place, back, later, rfl, hback⟩ :=
      exists_argument_of_tokenizeFrom (fun c ↦ isReferenceChar_of_mem_name) hothers
    have hbefore : ∀ s, .string s ∉ before.map TokenAt.token := by
      intro s hs
      refine string_notMem_of_unquoted hword hcalled s ?_
      rw [List.map_append]
      exact List.mem_append_left _ hs
    have hclose : Unquoted [')'] := by decide
    have hcall := callArguments_of_call hbefore text (String.ofList (scan cs).name)
      (back.map TokenAt.token)
    rw [ih hlater hclose hback] at hcall
    rw [names_of_named hname, ← hcall]
    simp

/-- For a link text without quotes that compiles, the names that the tree looks up, from left to
right, are the attributes that the text mentions, one for each reference. -/
theorem lookups_of_compile_translate_unquoted (text : String) (hsingle : '\'' ∉ text.toList)
    (hdouble : '"' ∉ text.toList) (expr : Expr)
    (hcompile : Expr.compile (translate text).rewritten = .ok expr) :
    expr.lookups = (translate text).attributes := by
  rw [translate_eq] at hcompile ⊢
  obtain ⟨tokens, htokens, hparse⟩ := bind_eq_ok_iff.mp hcompile
  obtain ⟨phrase, hphrase, rfl⟩ := derives_of_parse hparse
  rw [String.toList_ofList] at htokens
  have hcalls := callArguments_of_rewrite ⟨hsingle, hdouble⟩ (by decide : Unquoted []) htokens
  rw [← hphrase] at hcalls
  have harguments := phrase.callArguments_tokens []
  rw [List.append_nil, hcalls] at harguments
  exact (harguments.trans (List.append_nil _)).symm

/-- A link text that mentions `b` twice, and `a` in brackets as a key. -/
def keyedText : String :=
  "($b[$[a]] == $b)"

/-- What it compiles to. -/
def keyedComparison : Expr :=
  .binary .equal (.index (.lookup "b") (.lookup "a")) (.lookup "b")

theorem lookups_of_compile_translate_unquoted_keyedText :
    '\'' ∉ keyedText.toList ∧ '"' ∉ keyedText.toList ∧
      Expr.compile (translate keyedText).rewritten = .ok keyedComparison ∧
      (translate keyedText).attributes = ["b", "a", "b"] ∧
      keyedComparison.lookups = (translate keyedText).attributes := by
  have hname : IsName "a" ∧ IsName "b" :=
    ⟨⟨by decide, List.all_eq_true.mp rfl⟩, ⟨by decide, List.all_eq_true.mp rfl⟩⟩
  have hrewritten : (translate keyedText).rewritten =
      String.ofList "(lookup(\"b\")[lookup(\"a\")] == lookup(\"b\"))".toList := by
    have htext : keyedText.toList = '(' :: '$' :: ("b".toList ++ '[' :: '$' ::
        ("[a]] == ".toList ++ '$' :: ("b".toList ++ [')']))) := rfl
    have hkey : Reference.scan ("[a]] == ".toList ++ '$' :: ("b".toList ++ [')'])) =
        ⟨"[a]".toList, "a".toList, "] == ".toList ++ '$' :: ("b".toList ++ [')'])⟩ := rfl
    rw [translate_eq, htext, rewrite_of_ne (by decide),
      rewrite_reference hname.2.1 hname.2.2 (ends_cons rfl _), rewrite_of_ne (by decide),
      rewrite_of_named (by rw [hkey]; decide), hkey, rewrite_append_of_plain (by decide),
      rewrite_reference hname.2.1 hname.2.2 (ends_cons rfl _), rewrite_of_ne (by decide),
      rewrite_nil]
    rfl
  have hequal : "==" ∈ BinaryOp.equal.signs := List.mem_cons_self
  have hwritten : Written lookupOf keyedComparison
      "(lookup(\"b\")[lookup(\"a\")] == lookup(\"b\"))".toList :=
    .binary hequal (.index (.lookup "b") (.lookup "a")) (.lookup "b")
  have hcompile : Expr.compile (translate keyedText).rewritten = .ok keyedComparison := by
    rw [hrewritten]
    exact compile_of_written hwritten ⟨⟨hname.2, hname.1⟩, hname.2⟩ (by decide)
  have hsingle : '\'' ∉ keyedText.toList := by decide
  have hdouble : '"' ∉ keyedText.toList := by decide
  have hlookups := lookups_of_compile_translate_unquoted _ hsingle hdouble _ hcompile
  exact ⟨hsingle, hdouble, hcompile, hlookups.symm, hlookups⟩

end FlowGate

import FlowGate.Proofs.Lexing
import FlowGate.Proofs.ParserCompleteness

/-!
# Compiling is parsing by the grammar

A text that is split into tokens compiles to the tree that the grammar gives its tokens, unless it
is nested too deeply, and it compiles to nothing else. The tokens of a text have at most one tree,
so the grammar leaves no choice. `compile_follows_grammar` puts the three together.
-/

set_option autoImplicit false

namespace FlowGate.Expr

theorem nestingLimit_pos : 0 < nestingLimit := by
  decide

/-- A text that is split into tokens compiles to what the tokens are parsed to. -/
theorem compile_eq_parse {text : String} {tokens : List TokenAt}
    (htokens : tokenize text.toList = .ok tokens) :
    compile text = parse nestingLimit tokens (byteLength text.toList) := by
  rw [compile, htokens, ok_bind]

/-- A compiled tree is derived from all of the tokens. -/
theorem derives_of_compile {text : String} {tokens : List TokenAt} {expr : Expr}
    (htokens : tokenize text.toList = .ok tokens) (h : compile text = .ok expr) :
    Derives (tokens.map TokenAt.token) expr := by
  rw [compile_eq_parse htokens] at h
  exact derives_of_parse h

/-- A tree that the tokens derive is compiled unless it is too deep. -/
theorem compile_of_derives {text : String} {tokens : List TokenAt} {expr : Expr}
    (htokens : tokenize text.toList = .ok tokens)
    (h : Derives (tokens.map TokenAt.token) expr) :
    compile text = .ok expr ∨ ∃ position, compile text = .error (.tooDeep position) := by
  obtain ⟨phrase, hphrase, rfl⟩ := h
  rw [compile_eq_parse htokens]
  by_cases hfit : Fits nestingLimit [] phrase
  · left
    exact parse_eq_ok_of_fits nestingLimit_pos hfit hphrase.symm _
  · right
    exact parse_eq_tooDeep_of_not_fits nestingLimit_pos hfit hphrase.symm _

/-- A text with the tokens of a phrase that keeps both limits compiles to the tree of the phrase. -/
theorem compile_of_lexes {level : Nat} {phrase : Phrase level} {text : List Char}
    (htext : Lexes text phrase.tokens) (hheight : phrase.expr.height ≤ nestingLimit)
    (hnesting : phrase.nesting ≤ nestingLimit) :
    compile (String.ofList text) = .ok phrase.expr := by
  obtain ⟨loose, htokens, hexpr, hsame⟩ := phrase.exists_looser (Nat.zero_le level)
  obtain ⟨read, htokenize, hmap⟩ := htext.exists_tokenize
  have hfit : Fits nestingLimit [] loose := by
    constructor
    · rwa [hexpr]
    · rwa [nesting_nil, Nat.zero_add, hsame]
  rw [← String.toList_ofList (l := text)] at htokenize
  rw [compile_eq_parse htokenize, ← hexpr]
  exact parse_eq_ok_of_fits nestingLimit_pos hfit (hmap.trans htokens.symm) _

/-- The grammar is unambiguous. -/
theorem Derives.expr_unique {tokens : List Token} {expr other : Expr}
    (hexpr : Derives tokens expr) (hother : Derives tokens other) : expr = other := by
  obtain ⟨phrase, hphrase, rfl⟩ := hexpr
  obtain ⟨phrase', hphrase', rfl⟩ := hother
  exact Phrase.expr_eq_of_tokens_eq (hphrase.trans hphrase'.symm)

/-- For a text that is split into tokens, a compiled tree is derived from all of the tokens, a tree
that they derive is compiled unless it is too deep, and they derive one tree at most. -/
theorem compile_follows_grammar (text : String) (tokens : List TokenAt)
    (htokens : tokenize text.toList = .ok tokens) :
    (∀ expr, compile text = .ok expr → Derives (tokens.map TokenAt.token) expr) ∧
      (∀ expr, Derives (tokens.map TokenAt.token) expr →
        compile text = .ok expr ∨ ∃ position, compile text = .error (.tooDeep position)) ∧
      ∀ expr other, Derives (tokens.map TokenAt.token) expr →
        Derives (tokens.map TokenAt.token) other → expr = other := by
  refine ⟨?_, ?_, ?_⟩
  · intro expr h
    exact derives_of_compile htokens h
  · intro expr h
    exact compile_of_derives htokens h
  · intro expr other hexpr hother
    exact hexpr.expr_unique hother

/-- A number as an operand of a sum. -/
def numberPhrase (n : Int64) : Phrase 5 :=
  .tighter (.tighter (.tighter (.literal (.int n) (.int n) (.int n))))

/-- Two differences in a row, the first of them taken first. -/
def differencePhrase : Phrase 4 :=
  .chain (.chain (.tighter (numberPhrase 1)) .minus .sub .minus (numberPhrase 2)) .minus .sub .minus
    (numberPhrase 3)

theorem lexes_difference : Lexes "1 - 2 - 3".toList differencePhrase.tokens := by
  have hlast := Lexes.scan (c := '3') rfl (rfl : scan '3' [] = .ok ⟨.int 3, ['3'], []⟩) .nil
  have hsecond := Lexes.symbol (c := '-') rfl (fun _ ↦ rfl) (.blank (c := ' ') rfl hlast)
  have hmiddle := Lexes.scan (c := '2') rfl
    (rfl : scan '2' " - 3".toList = .ok ⟨.int 2, ['2'], " - 3".toList⟩)
    (.blank (c := ' ') rfl hsecond)
  have hfirst := Lexes.symbol (c := '-') rfl (fun _ ↦ rfl) (.blank (c := ' ') rfl hmiddle)
  exact Lexes.scan (c := '1') rfl
    (rfl : scan '1' " - 2 - 3".toList = .ok ⟨.int 1, ['1'], " - 2 - 3".toList⟩)
    (.blank (c := ' ') rfl hfirst)

/-- The text compiles to the tree that takes the first difference first, which is the only tree
that its tokens derive. -/
theorem compile_follows_grammar_difference :
    ∃ tokens, tokenize "1 - 2 - 3".toList = .ok tokens ∧
      tokens.map TokenAt.token = [.int 1, .minus, .int 2, .minus, .int 3] ∧
      compile "1 - 2 - 3" = .ok (.binary .sub
        (.binary .sub (.literal (.int 1)) (.literal (.int 2))) (.literal (.int 3))) ∧
      ∀ expr, Derives (tokens.map TokenAt.token) expr ↔ expr = .binary .sub
        (.binary .sub (.literal (.int 1)) (.literal (.int 2))) (.literal (.int 3)) := by
  obtain ⟨tokens, htokens, hmap⟩ := lexes_difference.exists_tokenize
  have hcompile := compile_of_lexes lexes_difference (by decide) (by decide)
  rw [String.ofList_toList] at hcompile
  obtain ⟨hsound, -, hunique⟩ := compile_follows_grammar _ _ htokens
  have hderives := hsound _ hcompile
  refine ⟨tokens, htokens, hmap, hcompile, fun expr ↦ ⟨fun h ↦ hunique _ _ h hderives, ?_⟩⟩
  rintro rfl
  exact hderives

end FlowGate.Expr

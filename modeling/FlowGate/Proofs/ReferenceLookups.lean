import FlowGate.Proofs.AttributeContext
import FlowGate.Proofs.WrittenForm

/-!
# Look-ups of a compiled link text

A link text that does not contain `lookup` can look up only what it mentions. A look-up in the
compiled tree stands in the tokens (`Phrase.lookup_isInfix`), the token stands in the rewritten text
(`exists_rest_of_name`), and there `lookup` begins the look-up of a mentioned name
(`lookup_of_rewrite`), wherever the quotes of the text fall. So the context of the mentioned
attributes serves the tree as well as the whole scope does (`lookups_of_compile_translate`).
-/

set_option autoImplicit false

namespace FlowGate

open FlowGate.Expr FlowGate.Reference

/-- The argument of an inserted look-up is read as the name. -/
theorem exists_argument_of_tokenizeFrom {position : Nat} {name rest : List Char}
    (hname : ∀ c ∈ name, isReferenceChar c = true) {tokens : List TokenAt}
    (h : tokenizeFrom position ('(' :: '"' :: (name ++ '"' :: rest)) = .ok tokens) :
    ∃ start back later,
      tokens = ⟨.openParen, position⟩ :: ⟨.string (String.ofList name), start⟩ :: back ∧
        tokenizeFrom later rest = .ok back := by
  have hspells : Spells '"' name name := .of_plain fun c hc ↦ ne_of_isReferenceChar (hname c hc)
  have hquote := scan_quoted (.inr rfl) hspells rest
  have hopen : scan '(' ('"' :: (name ++ '"' :: rest)) =
      .ok ⟨.openParen, ['('], '"' :: (name ++ '"' :: rest)⟩ := rfl
  rw [tokenizeFrom_scan rfl hopen, tokenizeFrom_scan rfl hquote] at h
  obtain ⟨outer, houter, rfl⟩ := map_eq_ok_iff.mp h
  obtain ⟨inner, hinner, rfl⟩ := map_eq_ok_iff.mp houter
  exact ⟨_, inner, _, rfl, hinner⟩

/-- A look-up among the tokens of a rewritten text is the look-up of a mentioned name. -/
theorem mem_names_of_lookup {cs : List Char} (hcs : ¬"lookup".toList <:+: cs)
    {position : Nat} {tokens : List TokenAt}
    (htokens : tokenizeFrom position (rewrite cs) = .ok tokens) {name : String}
    (h : [.name "lookup", .openParen, .string name, .closeParen] <:+:
      tokens.map TokenAt.token) :
    name ∈ names cs := by
  obtain ⟨before, after, hmap⟩ := h
  rw [List.append_assoc] at hmap
  obtain ⟨front, back, rfl, -, hback⟩ := List.map_eq_append_iff.mp hmap.symm
  obtain ⟨⟨_, start⟩, others, rfl, rfl, hothers⟩ := List.map_eq_cons_iff.mp hback
  obtain ⟨first, more, rfl, -, hmore⟩ := List.map_eq_cons_iff.mp hothers
  obtain ⟨second, last, rfl, hsecond, -⟩ := List.map_eq_cons_iff.mp hmore
  obtain ⟨consumed, left, later, hleft, hlater⟩ := exists_rest_of_tokenizeFrom htokens
  obtain ⟨blanks, rest, final, rfl, hfinal⟩ := exists_rest_of_name hlater
  rw [← List.append_assoc] at hleft
  obtain ⟨mentioned, tail, hmem, hchars, rfl⟩ := lookup_of_rewrite hcs hleft
  obtain ⟨start, back, later, heq, -⟩ := exists_argument_of_tokenizeFrom hchars hfinal
  obtain ⟨-, htail⟩ := List.cons.inj heq
  obtain ⟨rfl, -⟩ := List.cons.inj htail
  rw [← Token.string.inj hsecond]
  exact hmem

/-- For a link text that does not contain `lookup` and compiles, each name that the tree looks up is
one of the attributes that the text mentions, so the tree has the same value in the context of these
attributes as where every name is resolved in the scope. -/
theorem lookups_of_compile_translate (text : String) (hlookup : ¬"lookup".toList <:+: text.toList)
    (expr : Expr) (hcompile : Expr.compile (translate text).rewritten = .ok expr) :
    (∀ name ∈ expr.lookups, name ∈ (translate text).attributes) ∧
      ∀ scope : Scope,
        expr.eval (environment (contextOf (translate text).attributes scope).value) =
          expr.eval (referenceValue scope) := by
  have hlookups : ∀ name ∈ expr.lookups, name ∈ (translate text).attributes := by
    intro name hname
    rw [translate_eq] at hcompile ⊢
    obtain ⟨tokens, htokens, hparse⟩ := bind_eq_ok_iff.mp hcompile
    obtain ⟨phrase, hphrase, rfl⟩ := derives_of_parse hparse
    rw [String.toList_ofList] at htokens
    have hoccurs := phrase.lookup_isInfix hname
    rw [hphrase] at hoccurs
    exact mem_names_of_lookup hlookup htokens hoccurs
  exact ⟨hlookups, fun scope ↦ Expr.eval_contextOf hlookups scope⟩

/-- A link text that mentions `a` between quotes and `b` outside them. -/
def quotedText : String :=
  "('$a' == $b[\"c\"])"

/-- What it compiles to: the first look-up stays in the string. -/
def quotedComparison : Expr :=
  .binary .equal (.literal (.string "lookup(\"a\")"))
    (.index (.lookup "b") (.literal (.string "c")))

theorem lookups_of_compile_translate_quotedText :
    ¬"lookup".toList <:+: quotedText.toList ∧
      Expr.compile (translate quotedText).rewritten = .ok quotedComparison ∧
      (∀ name ∈ quotedComparison.lookups, name ∈ (translate quotedText).attributes) ∧
      ∀ scope : Scope,
        quotedComparison.eval
            (environment (contextOf (translate quotedText).attributes scope).value) =
          quotedComparison.eval (referenceValue scope) := by
  have hlookup : ¬"lookup".toList <:+: quotedText.toList := by
    intro hoccurs
    have hmem : 'l' ∈ quotedText.toList := hoccurs.subset (by decide)
    exact absurd hmem (by decide)
  have hname : IsName "a" ∧ IsName "b" :=
    ⟨⟨by decide, List.all_eq_true.mp rfl⟩, ⟨by decide, List.all_eq_true.mp rfl⟩⟩
  have hquote : Ends ("' == ".toList ++ '$' :: ("b".toList ++ ("[\"c\"])".toList ++ []))) := by
    intro c hc
    obtain rfl := Option.mem_some.mp hc
    rfl
  have hbracket : Ends ("[\"c\"])".toList ++ []) := by
    intro c hc
    obtain rfl := Option.mem_some.mp hc
    rfl
  have hrewritten : (translate quotedText).rewritten =
      String.ofList "('lookup(\"a\")' == lookup(\"b\")[\"c\"])".toList := by
    have htext : quotedText.toList = "('".toList ++ '$' :: ("a".toList ++
        ("' == ".toList ++ '$' :: ("b".toList ++ ("[\"c\"])".toList ++ [])))) := rfl
    rw [translate_eq, htext, rewrite_append_of_plain (by decide),
      rewrite_reference hname.1.1 hname.1.2 hquote, rewrite_append_of_plain (by decide),
      rewrite_reference hname.2.1 hname.2.2 hbracket, rewrite_append_of_plain (by decide),
      rewrite_nil]
    rfl
  have hequal : "==" ∈ BinaryOp.equal.signs := List.mem_cons_self
  have hwritten : Written lookupOf quotedComparison
      "('lookup(\"a\")' == lookup(\"b\")[\"c\"])".toList :=
    .binary hequal (.string "lookup(\"a\")" (.inl rfl))
      (.index (.lookup "b") (.string "c" (.inr rfl)))
  have hstrings : '$' ∉ "lookup(\"a\")".toList ∧ '$' ∉ "c".toList := by
    decide
  have hcompile : Expr.compile (translate quotedText).rewritten = .ok quotedComparison := by
    rw [hrewritten]
    exact compile_of_written hwritten ⟨hstrings.1, hname.2, hstrings.2⟩ (by decide)
  exact ⟨hlookup, hcompile, lookups_of_compile_translate _ hlookup _ hcompile⟩

end FlowGate

import FlowGate.Proofs.WrittenForm

/-!
# Expressions printed with the fewest parentheses

`Prints` gives the tokens of an expression with a group only around an operand that binds less
tightly than its place asks for: the left operand of a binary operator may be of the level of the
operator, the right one has to be tighter, since operators of one level group to the left. `Spelled`
says how a token may be spelled and `Spaced` joins the spellings with single blanks.

The tokens that are printed are those of a phrase of the level of the expression
(`exists_phrase_of_prints`), and spaced tokens are read back one by one (`Spaced.lexes`). So every
printed text compiles to its expression (`compile_of_prints`).
-/

set_option autoImplicit false

namespace FlowGate

open Reference

/-- The fixed spellings of a token. -/
def Token.words : Token → List String
  | int _ => []
  | float _ => []
  | string _ => []
  | name _ => []
  | trueWord => ["true"]
  | falseWord => ["false"]
  | nullWord => ["null"]
  | and => ["&&", "and"]
  | or => ["||", "or"]
  | not => ["!", "not"]
  | contains => ["contains"]
  | equal => ["=="]
  | notEqual => ["!="]
  | less => ["<"]
  | lessEqual => ["<="]
  | greater => [">"]
  | greaterEqual => [">="]
  | plus => ["+"]
  | minus => ["-"]
  | star => ["*"]
  | slash => ["/"]
  | percent => ["%"]
  | openParen => ["("]
  | closeParen => [")"]
  | openBracket => ["["]
  | closeBracket => ["]"]

namespace Expr

/-- The tightest level of the grammar that has the expression without a group around it. -/
def level : Expr → Nat
  | literal _ => 8
  | lookup _ => 8
  | index _ _ => 7
  | unary _ _ => 6
  | binary op _ _ => op.level

/-- The tokens of an expression in a place for expressions of a level or a tighter one. -/
def placed (least : Nat) (expr : Expr) (tokens : List Token) : List Token :=
  if expr.level < least then .openParen :: (tokens ++ [.closeParen]) else tokens

/-- The tokens of an expression with groups only where the place of an operand asks for one. -/
inductive Prints : Expr → List Token → Prop where
  | literal {token : Token} {value : Value} (denotes : Denotes token value) :
      Prints (.literal value) [token]
  | lookup (name : String) :
      Prints (.lookup name) [.name lookupName, .openParen, .string name, .closeParen]
  | index {target key : Expr} {front inner : List Token} (htarget : Prints target front)
      (hkey : Prints key inner) :
      Prints (.index target key)
        (placed 7 target front ++ .openBracket :: (inner ++ [.closeBracket]))
  | unary {token : Token} {op : UnaryOp} (prefixes : Prefixes token op) {operand : Expr}
      {inner : List Token} (hoperand : Prints operand inner) :
      Prints (.unary op operand) (token :: placed 6 operand inner)
  | binary {token : Token} {op : BinaryOp} (joins : Joins op.level token op) {left right : Expr}
      {front back : List Token} (hleft : Prints left front) (hright : Prints right back) :
      Prints (.binary op left right)
        (placed op.level left front ++ token :: placed (op.level + 1) right back)

/-- The ways to spell a token. In a string a quote of its kind and a backslash have to be escaped,
and line feeds and tabs may be. -/
inductive Spelled : Token → List Char → Prop where
  | int {n : Int64} (hn : 0 ≤ n.toInt) : Spelled (.int n) (toString n.toInt).toList
  | string {quote : Char} (hquote : quote = '\'' ∨ quote = '"') {content text : List Char}
      (hspells : Spells quote content text) :
      Spelled (.string (String.ofList content)) (quote :: (text ++ [quote]))
  | lookup : Spelled (.name lookupName) lookupName.toList
  | word {token : Token} {word : String} (hword : word ∈ token.words) : Spelled token word.toList

/-- The tokens spelled with a single blank between them. -/
inductive Spaced : List Token → List Char → Prop where
  | last {token : Token} {word : List Char} (hword : Spelled token word) : Spaced [token] word
  | cons {token : Token} {word : List Char} (hword : Spelled token word) {tokens : List Token}
      {text : List Char} (rest : Spaced tokens text) :
      Spaced (token :: tokens) (word ++ ' ' :: text)

/-- The literals of the expression can be spelled: they are integers that are not negative,
booleans, `null` and strings. -/
def Printable : Expr → Prop
  | literal (.int n) => 0 ≤ n.toInt
  | literal (.bool _) => True
  | literal .undefined => True
  | literal (.string _) => True
  | literal _ => False
  | lookup _ => True
  | index target key => target.Printable ∧ key.Printable
  | unary _ operand => operand.Printable
  | binary _ left right => left.Printable ∧ right.Printable

/-! ### Phrases of printed tokens -/

/-- An operand in its place is a phrase of the level that the place asks for. A group is one more
thing that is open. -/
theorem exists_phrase_of_placed {expr : Expr} {phrase : Phrase expr.level}
    (hexpr : phrase.expr = expr) {least : Nat} (hleast : least ≤ 8) :
    ∃ other : Phrase least, other.tokens = placed least expr phrase.tokens ∧ other.expr = expr ∧
      other.nesting ≤ phrase.nesting + 1 := by
  by_cases hloose : expr.level < least
  · obtain ⟨inner, hinnerTokens, hinnerExpr, hinnerNesting⟩ :=
      phrase.exists_looser (Nat.zero_le expr.level)
    obtain ⟨other, htokens, hother, hnesting⟩ := (Phrase.group inner).exists_looser hleast
    refine ⟨other, ?_, ?_, ?_⟩
    · rw [htokens, placed, if_pos hloose, ← hinnerTokens]
      rfl
    · rw [hother, ← hexpr, ← hinnerExpr]
      rfl
    · rw [hnesting, ← hinnerNesting]
      exact Nat.le_refl _
  · obtain ⟨other, htokens, hother, hnesting⟩ := phrase.exists_looser (Nat.le_of_not_lt hloose)
    refine ⟨other, ?_, hother.trans hexpr, ?_⟩
    · rw [htokens, placed, if_neg hloose]
    · rw [hnesting]
      exact Nat.le_succ _

/-- Printed tokens are those of a phrase of the expression, whose nesting is less than twice the
height: an operand may open a group and then its own operator or bracket. -/
theorem exists_phrase_of_prints {expr : Expr} {tokens : List Token} (h : Prints expr tokens) :
    ∃ phrase : Phrase expr.level, phrase.tokens = tokens ∧ phrase.expr = expr ∧
      phrase.nesting + 2 ≤ 2 * expr.height := by
  induction h with
  | literal denotes => exact ⟨.literal _ _ denotes, rfl, rfl, Nat.le_refl 2⟩
  | lookup name => exact ⟨.lookup name, rfl, rfl, Nat.le_refl 2⟩
  | @index target key _ _ _ _ ihtarget ihkey =>
    obtain ⟨front, rfl, hfront, hfrontHeight⟩ := ihtarget
    obtain ⟨inner, rfl, hinner, hinnerHeight⟩ := ihkey
    obtain ⟨target', htokens, htarget, hnesting⟩ :=
      exists_phrase_of_placed hfront (by omega : 7 ≤ 8)
    obtain ⟨key', hkeyTokens, hkey, hkeyNesting⟩ := inner.exists_looser (Nat.zero_le key.level)
    refine ⟨.index target' key', ?_, ?_, ?_⟩
    · rw [← htokens, ← hkeyTokens]
      rfl
    · show Expr.index target'.expr key'.expr = .index target key
      rw [htarget, hkey, hinner]
    · show max target'.nesting (key'.nesting + 1) + 2 ≤ 2 * (max target.height key.height + 1)
      omega
  | @unary token op prefixes operand _ _ ih =>
    obtain ⟨inner, rfl, hinner, hheight⟩ := ih
    obtain ⟨operand', htokens, hoperand, hnesting⟩ :=
      exists_phrase_of_placed hinner (by omega : 6 ≤ 8)
    refine ⟨.unary token op prefixes operand', ?_, ?_, ?_⟩
    · rw [← htokens]
      rfl
    · show Expr.unary op operand'.expr = .unary op operand
      rw [hoperand]
    · show operand'.nesting + 1 + 2 ≤ 2 * (operand.height + 1)
      omega
  | @binary token op joins left right _ _ _ _ ihleft ihright =>
    obtain ⟨front, rfl, hfront, hfrontHeight⟩ := ihleft
    obtain ⟨back, rfl, hback, hbackHeight⟩ := ihright
    have hlevel := op.level_lt
    obtain ⟨left', hleftTokens, hleft, hleftNesting⟩ :=
      exists_phrase_of_placed hfront (by omega : op.level ≤ 8)
    obtain ⟨right', hrightTokens, hright, hrightNesting⟩ :=
      exists_phrase_of_placed hback (by omega : op.level + 1 ≤ 8)
    refine ⟨.chain left' token op joins right', ?_, ?_, ?_⟩
    · rw [← hleftTokens, ← hrightTokens]
      rfl
    · show Expr.binary op left'.expr right'.expr = .binary op left right
      rw [hleft, hright]
    · show max left'.nesting right'.nesting + 2 ≤ 2 * (max left.height right.height + 1)
      omega

/-! ### Texts of printed tokens -/

/-- A token with a fixed spelling is read up to the end of the text or a blank. -/
theorem scan_of_mem_words {token : Token} {word : String} (h : word ∈ token.words) :
    ∃ c cs, word.toList = c :: cs ∧ Text.isBlank c = false ∧
      ∀ rest, (∀ d ∈ rest.head?, d = ' ') →
        Expr.scan c (cs ++ rest) = .ok ⟨token, c :: cs, rest⟩ := by
  have hscan : ∀ word ∈ token.words, ∃ c cs, word.toList = c :: cs ∧ Text.isBlank c = false ∧
      Expr.scan c (cs ++ []) = .ok ⟨token, c :: cs, []⟩ ∧
      ∀ rest, Expr.scan c (cs ++ ' ' :: rest) = .ok ⟨token, c :: cs, ' ' :: rest⟩ := by
    cases token <;> simp only [Token.words, List.forall_mem_cons] <;>
      repeat' apply And.intro
    all_goals first
      | exact ⟨_, _, rfl, rfl, rfl, fun _ ↦ rfl⟩
      | exact fun _ hmem ↦ nomatch hmem
  obtain ⟨c, cs, hword, hblank, hlast, hmore⟩ := hscan word h
  refine ⟨c, cs, hword, hblank, fun rest hrest ↦ ?_⟩
  cases rest with
  | nil => exact hlast
  | cons d rest =>
    obtain rfl := hrest d rfl
    exact hmore rest

/-- A spelled token is read back in front of the end of the text or a blank. -/
theorem Spelled.lexes {token : Token} {word rest : List Char} {tokens : List Token}
    (h : Spelled token word) (hrest : ∀ c ∈ rest.head?, c = ' ') (hlexes : Lexes rest tokens) :
    Lexes (word ++ rest) (token :: tokens) := by
  have hends : Ends rest := by
    intro c hc
    rw [hrest c hc]
    rfl
  cases h with
  | int hn => exact Reads.int hn rest tokens hends hlexes
  | string hquote hspells =>
    rw [List.cons_append, List.append_assoc]
    exact .quoted hquote hspells hlexes
  | lookup => exact Reads.word lookupName rfl rfl rfl rfl rest tokens hends hlexes
  | word hword =>
    obtain ⟨c, cs, heq, hblank, hscan⟩ := scan_of_mem_words hword
    rw [heq]
    exact .scan hblank (hscan rest hrest) hlexes

/-- Spaced tokens are read back. -/
theorem Spaced.lexes {tokens : List Token} {text : List Char} (h : Spaced tokens text) :
    Lexes text tokens := by
  induction h with
  | last hword =>
    have hnone : ∀ c ∈ ([] : List Char).head?, c = ' ' := fun _ hc ↦ nomatch hc
    have hlexes := hword.lexes hnone .nil
    rwa [List.append_nil] at hlexes
  | cons hword _ ih =>
    refine hword.lexes ?_ (.blank rfl ih)
    intro c hc
    exact (Option.mem_some.mp hc).symm

theorem exists_spaced {tokens : List Token} (hne : tokens ≠ [])
    (h : ∀ token ∈ tokens, ∃ word, Spelled token word) : ∃ text, Spaced tokens text := by
  induction tokens with
  | nil => exact absurd rfl hne
  | cons token tokens ih =>
    obtain ⟨⟨word, hword⟩, hrest⟩ := List.forall_mem_cons.mp h
    by_cases hlast : tokens = []
    · subst hlast
      exact ⟨word, .last hword⟩
    · obtain ⟨text, htext⟩ := ih hlast hrest
      exact ⟨_, .cons hword htext⟩

/-! ### Every printable expression has a text -/

theorem exists_spelled_of_words {token : Token} (h : token.words ≠ []) :
    ∃ word, Spelled token word := by
  obtain ⟨word, hword⟩ := List.exists_mem_of_ne_nil _ h
  exact ⟨word.toList, .word hword⟩

theorem exists_spelled_string (s : String) : ∃ word, Spelled (.string s) word := by
  have hspelled := Spelled.string (.inr rfl) (Spells.escape (.inr rfl) s.toList)
  rw [String.ofList_toList] at hspelled
  exact ⟨_, hspelled⟩

theorem exists_spelled_of_joins {level : Nat} {token : Token} {op : BinaryOp}
    (h : Joins level token op) : ∃ word, Spelled token word := by
  cases h <;> exact exists_spelled_of_words (by decide)

theorem exists_spelled_of_prefixes {token : Token} {op : UnaryOp} (h : Prefixes token op) :
    ∃ word, Spelled token word := by
  cases h <;> exact exists_spelled_of_words (by decide)

theorem exists_spelled_of_denotes {token : Token} {value : Value} (h : Denotes token value)
    (hprintable : (Expr.literal value).Printable) : ∃ word, Spelled token word := by
  cases h with
  | int n => exact ⟨_, .int hprintable⟩
  | float x => exact hprintable.elim
  | string s => exact exists_spelled_string s
  | trueWord => exact exists_spelled_of_words (by decide)
  | falseWord => exact exists_spelled_of_words (by decide)
  | nullWord => exact exists_spelled_of_words (by decide)

theorem exists_spelled_of_mem_placed {least : Nat} {expr : Expr} {tokens : List Token}
    (h : ∀ token ∈ tokens, ∃ word, Spelled token word) :
    ∀ token ∈ placed least expr tokens, ∃ word, Spelled token word := by
  unfold placed
  split
  · simp only [List.forall_mem_cons, List.forall_mem_append]
    exact ⟨exists_spelled_of_words (by decide), h, exists_spelled_of_words (by decide),
      fun _ hmem ↦ nomatch hmem⟩
  · exact h

/-- The tokens of a printable expression can all be spelled. -/
theorem Prints.exists_spelled {expr : Expr} {tokens : List Token} (h : Prints expr tokens)
    (hprintable : expr.Printable) : ∀ token ∈ tokens, ∃ word, Spelled token word := by
  induction h with
  | literal denotes =>
    intro token htoken
    obtain rfl := List.mem_singleton.mp htoken
    exact exists_spelled_of_denotes denotes hprintable
  | lookup name =>
    simp only [List.forall_mem_cons]
    exact ⟨⟨_, .lookup⟩, exists_spelled_of_words (by decide), exists_spelled_string name,
      exists_spelled_of_words (by decide), fun _ hmem ↦ nomatch hmem⟩
  | index _ _ ihtarget ihkey =>
    simp only [List.forall_mem_cons, List.forall_mem_append]
    exact ⟨exists_spelled_of_mem_placed (ihtarget hprintable.1),
      exists_spelled_of_words (by decide), ihkey hprintable.2,
      exists_spelled_of_words (by decide), fun _ hmem ↦ nomatch hmem⟩
  | unary prefixes _ ih =>
    simp only [List.forall_mem_cons]
    exact ⟨exists_spelled_of_prefixes prefixes, exists_spelled_of_mem_placed (ih hprintable)⟩
  | binary joins _ _ ihleft ihright =>
    simp only [List.forall_mem_cons, List.forall_mem_append]
    exact ⟨exists_spelled_of_mem_placed (ihleft hprintable.1), exists_spelled_of_joins joins,
      exists_spelled_of_mem_placed (ihright hprintable.2)⟩

theorem exists_joins (op : BinaryOp) : ∃ token, Joins op.level token op := by
  cases op <;> exact ⟨_, by constructor⟩

theorem exists_prefixes (op : UnaryOp) : ∃ token, Prefixes token op := by
  cases op <;> exact ⟨_, by constructor⟩

theorem exists_denotes {value : Value} (h : (Expr.literal value).Printable) :
    ∃ token, Denotes token value := by
  match value with
  | .int n => exact ⟨_, .int n⟩
  | .bool true => exact ⟨_, .trueWord⟩
  | .bool false => exact ⟨_, .falseWord⟩
  | .undefined => exact ⟨_, .nullWord⟩
  | .string s => exact ⟨_, .string s⟩
  | .float x => exact h.elim
  | .token s => exact h.elim
  | .mapping entries => exact h.elim

/-- Something is printed. -/
theorem Prints.ne_nil {expr : Expr} {tokens : List Token} (h : Prints expr tokens) :
    tokens ≠ [] := by
  cases h <;> simp

theorem exists_prints {expr : Expr} (hprintable : expr.Printable) :
    ∃ tokens, Prints expr tokens := by
  induction expr with
  | literal value =>
    obtain ⟨token, htoken⟩ := exists_denotes hprintable
    exact ⟨_, .literal htoken⟩
  | lookup name => exact ⟨_, .lookup name⟩
  | index target key ihtarget ihkey =>
    obtain ⟨front, hfront⟩ := ihtarget hprintable.1
    obtain ⟨inner, hinner⟩ := ihkey hprintable.2
    exact ⟨_, .index hfront hinner⟩
  | unary op operand ih =>
    obtain ⟨inner, hinner⟩ := ih hprintable
    obtain ⟨token, htoken⟩ := exists_prefixes op
    exact ⟨_, .unary htoken hinner⟩
  | binary op left right ihleft ihright =>
    obtain ⟨front, hfront⟩ := ihleft hprintable.1
    obtain ⟨back, hback⟩ := ihright hprintable.2
    obtain ⟨token, htoken⟩ := exists_joins op
    exact ⟨_, .binary htoken hfront hback⟩

/-! ### Reading back -/

/-- A printable expression of height 64 at most can be printed, and each text that it is printed as
compiles to the expression. -/
theorem compile_of_prints (expr : Expr) (hprintable : expr.Printable) (hheight : expr.height ≤ 64) :
    (∃ tokens text, Prints expr tokens ∧ Spaced tokens text) ∧
      ∀ (tokens : List Token) (text : String), Prints expr tokens → Spaced tokens text.toList →
        compile text = .ok expr := by
  constructor
  · obtain ⟨tokens, hprints⟩ := exists_prints hprintable
    obtain ⟨text, htext⟩ := exists_spaced hprints.ne_nil (hprints.exists_spelled hprintable)
    exact ⟨tokens, text, hprints, htext⟩
  · intro tokens text hprints hspaced
    obtain ⟨phrase, rfl, hexpr, hnesting⟩ := exists_phrase_of_prints hprints
    have hcompile := compile_of_lexes hspaced.lexes (by rw [hexpr, nestingLimit]; omega)
      (by rw [nestingLimit]; omega)
    rwa [String.ofList_toList, hexpr] at hcompile

/-- A difference whose right operand is a difference, which a negated entry is taken from. -/
def nestedDifference : Expr :=
  .binary .sub (.literal (.int 1))
    (.binary .sub (.literal (.int 2))
      (.unary .neg (.index (.lookup "prix é") (.literal (.string "it's")))))

def nestedDifferenceText : String :=
  "1 - ( 2 - - lookup ( \"prix é\" ) [ 'it\\'s' ] )"

theorem compile_of_prints_nestedDifference :
    nestedDifference.Printable ∧ nestedDifference.height ≤ 64 ∧
      (∃ tokens, Prints nestedDifference tokens ∧ Spaced tokens nestedDifferenceText.toList) ∧
      compile nestedDifferenceText = .ok nestedDifference := by
  have hints : 0 ≤ (1 : Int64).toInt ∧ 0 ≤ (2 : Int64).toInt := by decide
  have hprintable : nestedDifference.Printable := ⟨hints.1, hints.2, trivial, trivial⟩
  have hheight : nestedDifference.height ≤ 64 := by decide
  have hsub : Joins BinaryOp.sub.level .minus .sub := .minus
  have hprints : Prints nestedDifference [.int 1, .minus, .openParen, .int 2, .minus, .minus,
      .name lookupName, .openParen, .string "prix é", .closeParen, .openBracket, .string "it's",
      .closeBracket, .closeParen] :=
    .binary hsub (.literal (.int 1)) (.binary hsub (.literal (.int 2))
      (.unary .minus (.index (.lookup "prix é") (.literal (.string "it's")))))
  have hminus : Spelled .minus "-".toList := .word List.mem_cons_self
  have hopen : Spelled .openParen "(".toList := .word List.mem_cons_self
  have hclose : Spelled .closeParen ")".toList := .word List.mem_cons_self
  have hopenBracket : Spelled .openBracket "[".toList := .word List.mem_cons_self
  have hcloseBracket : Spelled .closeBracket "]".toList := .word List.mem_cons_self
  have hname : Spelled (.string "prix é") "\"prix é\"".toList :=
    .string (.inr rfl) (.escape (.inr rfl) "prix é".toList)
  have hkey : Spelled (.string "it's") "'it\\'s'".toList :=
    .string (.inl rfl) (.escape (.inl rfl) "it's".toList)
  have hspaced : Spaced _ nestedDifferenceText.toList :=
    .cons (.int hints.1) <| .cons hminus <| .cons hopen <| .cons (.int hints.2) <| .cons hminus <|
      .cons hminus <| .cons .lookup <| .cons hopen <| .cons hname <| .cons hclose <|
      .cons hopenBracket <| .cons hkey <| .cons hcloseBracket <| .last hclose
  exact ⟨hprintable, hheight, ⟨_, hprints, hspaced⟩,
    (compile_of_prints nestedDifference hprintable hheight).2 _ _ hprints hspaced⟩

end Expr

end FlowGate

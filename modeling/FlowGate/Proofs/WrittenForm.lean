import FlowGate.Proofs.CompileGrammar
import FlowGate.Proofs.Translation

/-!
# Expressions written with parentheses

`Written` says how an expression may be written with parentheses around each operator, given how its
look-ups are written. If these are written out, then the tokens of the text are those of a phrase of
the expression (`reads_of_written`), and its nesting is at most twice the height: an operator opens
its parenthesis and, if it is unary, itself.
-/

set_option autoImplicit false

namespace FlowGate

open Reference

/-- What a unary operator may be written as in front of its operand. -/
def UnaryOp.signs : UnaryOp → List String
  | not => ["!", "not "]
  | neg => ["-"]

/-- What a binary operator may be written as between two blanks. -/
def BinaryOp.signs : BinaryOp → List String
  | or => ["||", "or"]
  | and => ["&&", "and"]
  | op => [op.symbol]

namespace Expr

/-- A name that a reference can mention without brackets. -/
def IsName (name : String) : Prop :=
  name.toList ≠ [] ∧ ∀ c ∈ name.toList, isNameChar c = true

/-- The expression can be written as a link text: integers are not negative, strings have no `$`,
and references can mention the names. -/
def Plain : Expr → Prop
  | literal (.int n) => 0 ≤ n.toInt
  | literal (.bool _) => True
  | literal .undefined => True
  | literal (.string s) => '$' ∉ s.toList
  | literal _ => False
  | lookup name => IsName name
  | index target key => target.Plain ∧ key.Plain
  | unary _ operand => operand.Plain
  | binary _ left right => left.Plain ∧ right.Plain

/-- The ways to write an expression with parentheses around each operator and strings in either kind
of quotes, where `mention` writes a look-up of a name. -/
inductive Written (mention : String → List Char) : Expr → List Char → Prop where
  | int (n : Int64) : Written mention (.literal (.int n)) (toString n.toInt).toList
  | bool (b : Bool) : Written mention (.literal (.bool b)) (toString b).toList
  | null : Written mention (.literal .undefined) "null".toList
  | string (s : String) {quote : Char} (hquote : quote = '\'' ∨ quote = '"') :
      Written mention (.literal (.string s)) (quote :: (escape quote s.toList ++ [quote]))
  | lookup (name : String) : Written mention (.lookup name) (mention name)
  | index {target key : Expr} {front inner : List Char} (htarget : Written mention target front)
      (hkey : Written mention key inner) :
      Written mention (.index target key) (front ++ '[' :: (inner ++ [']']))
  | unary {op : UnaryOp} {sign : String} (hsign : sign ∈ op.signs) {operand : Expr}
      {inner : List Char} (hoperand : Written mention operand inner) :
      Written mention (.unary op operand) ('(' :: (sign.toList ++ inner ++ [')']))
  | binary {op : BinaryOp} {sign : String} (hsign : sign ∈ op.signs) {left right : Expr}
      {front back : List Char} (hleft : Written mention left front)
      (hright : Written mention right back) :
      Written mention (.binary op left right)
        ('(' :: (front ++ ' ' :: (sign.toList ++ ' ' :: back) ++ [')']))

/-- A look-up written as a reference. -/
def referenceTo (name : String) : List Char :=
  '$' :: name.toList

/-- A look-up written out. -/
def lookupOf (name : String) : List Char :=
  Piece.lookupForm name.toList

theorem exists_written (mention : String → List Char) {expr : Expr} (hplain : expr.Plain) :
    ∃ text, Written mention expr text := by
  induction expr with
  | literal value =>
    cases value with
    | int n => exact ⟨_, .int n⟩
    | bool b => exact ⟨_, .bool b⟩
    | undefined => exact ⟨_, .null⟩
    | string s => exact ⟨_, .string s (.inl rfl)⟩
    | float x => exact hplain.elim
    | token s => exact hplain.elim
    | mapping entries => exact hplain.elim
  | lookup name => exact ⟨_, .lookup name⟩
  | index target key ihtarget ihkey =>
    obtain ⟨front, hfront⟩ := ihtarget hplain.1
    obtain ⟨inner, hinner⟩ := ihkey hplain.2
    exact ⟨_, .index hfront hinner⟩
  | unary op operand ih =>
    obtain ⟨inner, hinner⟩ := ih hplain
    have hsign : ∃ sign, sign ∈ op.signs := by
      cases op <;> exact ⟨_, List.mem_cons_self⟩
    obtain ⟨sign, hsign⟩ := hsign
    exact ⟨_, .unary hsign hinner⟩
  | binary op left right ihleft ihright =>
    obtain ⟨front, hfront⟩ := ihleft hplain.1
    obtain ⟨back, hback⟩ := ihright hplain.2
    have hsign : ∃ sign, sign ∈ op.signs := by
      cases op <;> exact ⟨_, List.mem_cons_self⟩
    obtain ⟨sign, hsign⟩ := hsign
    exact ⟨_, .binary hsign hfront hback⟩

/-! ### Texts up to what ends names -/

/-- What ends names ends words and numbers as well. -/
theorem not_continues_of_ends {rest : List Char} (h : Ends rest) :
    ∀ d ∈ rest.head?, continuesWord d = false ∧ d.isDigit = false ∧ d ≠ '.' := by
  intro d hd
  have hname := h d hd
  simp only [isNameChar, Char.isAlphanum, Bool.or_eq_false_iff, beq_eq_false_iff_ne] at hname
  obtain ⟨⟨⟨halpha, hdigit⟩, hpoint⟩, hunderscore⟩ := hname
  refine ⟨?_, hdigit, hpoint⟩
  simp [continuesWord, Char.isAlphanum, halpha, hdigit, hunderscore]

theorem ends_cons {c : Char} (h : isNameChar c = false) (rest : List Char) : Ends (c :: rest) := by
  intro d hd
  obtain rfl := Option.mem_some.mp hd
  exact h

/-- The text is read as the tokens wherever it stands in front of what ends names. -/
def Reads (text : List Char) (tokens : List Token) : Prop :=
  ∀ rest others, Ends rest → Lexes rest others → Lexes (text ++ rest) (tokens ++ others)

theorem Reads.of_eq {text : List Char} {tokens other : List Token} (h : Reads text tokens)
    (heq : other = tokens) : Reads text other := by
  rwa [heq]

theorem Reads.int {n : Int64} (hn : 0 ≤ n.toInt) : Reads (toString n.toInt).toList [.int n] := by
  intro rest others hends hrest
  exact .int hn (fun d hd ↦ (not_continues_of_ends hends d hd).2) hrest

theorem Reads.word (word : String) {c : Char} {tail : List Char} (hword : word.toList = c :: tail)
    (hstart : startsWord c = true) (htail : tail.all continuesWord = true) {token : Token}
    (htoken : Token.ofWord word.toList = token) : Reads word.toList [token] := by
  intro rest others hends hrest
  rw [← htoken, hword]
  exact .word hstart (List.all_eq_true.mp htail)
    (fun d hd ↦ (not_continues_of_ends hends d hd).1) hrest

theorem Reads.quoted {quote : Char} (hquote : quote = '\'' ∨ quote = '"') (s : String) :
    Reads (quote :: (escape quote s.toList ++ [quote])) [.string s] := by
  intro rest others _ hrest
  have hread := Lexes.quoted hquote (.escape hquote s.toList) hrest
  rw [String.ofList_toList] at hread
  rw [List.cons_append, List.append_assoc]
  exact hread

/-- A look-up that is written out has four tokens. -/
theorem Reads.lookupOf {name : String} (hname : ∀ c ∈ name.toList, isReferenceChar c = true) :
    Reads (lookupOf name) [.name "lookup", .openParen, .string name, .closeParen] := by
  intro rest others _ hrest
  have hspells : Spells '"' name.toList name.toList := .of_plain fun c hc ↦
    ne_of_isReferenceChar (hname c hc)
  have hclose : Lexes (')' :: rest) (.closeParen :: others) := .symbol rfl (fun _ ↦ rfl) hrest
  have hargument := Lexes.quoted (.inr rfl) hspells hclose
  rw [String.ofList_toList] at hargument
  have hopen := Lexes.symbol (c := '(') rfl (fun _ ↦ rfl) hargument
  have htoken : Token.ofWord "lookup".toList = .name "lookup" := rfl
  rw [Expr.lookupOf, lookupForm_append]
  exact Reads.word "lookup" rfl rfl rfl htoken _ _ (ends_cons rfl _) hopen

theorem Reads.group {inner : List Char} {tokens : List Token} (h : Reads inner tokens) :
    Reads ('(' :: (inner ++ [')'])) (.openParen :: (tokens ++ [.closeParen])) := by
  intro rest others _ hrest
  have hclose : Lexes (')' :: rest) (.closeParen :: others) := .symbol rfl (fun _ ↦ rfl) hrest
  have hinner := h _ _ (ends_cons rfl rest) hclose
  rw [List.cons_append, List.cons_append, List.append_assoc, List.append_assoc]
  exact .symbol rfl (fun _ ↦ rfl) hinner

theorem Reads.index {front inner : List Char} {target key : List Token}
    (hfront : Reads front target) (hinner : Reads inner key) :
    Reads (front ++ '[' :: (inner ++ [']']))
      (target ++ .openBracket :: (key ++ [.closeBracket])) := by
  intro rest others _ hrest
  have hclose : Lexes (']' :: rest) (.closeBracket :: others) := .symbol rfl (fun _ ↦ rfl) hrest
  have hkey := hinner _ _ (ends_cons rfl rest) hclose
  have hopen := Lexes.symbol (c := '[') rfl (fun _ ↦ rfl) hkey
  have hindex := hfront _ _ (ends_cons rfl _) hopen
  rw [List.append_assoc, List.append_assoc, List.cons_append, List.cons_append, List.append_assoc,
    List.append_assoc]
  exact hindex

/-! ### Operators -/

/-- A binary operator between two blanks is one token that joins operands at its level. -/
theorem lexes_sign {op : BinaryOp} {sign : String} (h : sign ∈ op.signs) :
    ∃ token, Joins op.level token op ∧ ∀ rest tokens, Lexes rest tokens →
      Lexes (sign.toList ++ ' ' :: rest) (token :: tokens) := by
  have hscan : ∀ sign ∈ op.signs, ∃ c cs token, sign.toList = c :: cs ∧
      Text.isBlank c = false ∧ Joins op.level token op ∧
      ∀ rest, Expr.scan c (cs ++ ' ' :: rest) = .ok ⟨token, c :: cs, ' ' :: rest⟩ := by
    cases op <;> simp only [BinaryOp.signs, BinaryOp.symbol, List.forall_mem_cons] <;>
      repeat' apply And.intro
    all_goals first
      | exact ⟨_, _, _, rfl, rfl, by constructor, fun _ ↦ rfl⟩
      | exact fun _ hmem ↦ nomatch hmem
  obtain ⟨c, cs, token, hsign, hblank, hjoins, hread⟩ := hscan sign h
  refine ⟨token, hjoins, fun rest tokens hrest ↦ ?_⟩
  rw [hsign]
  exact .scan hblank (hread rest) (.blank rfl hrest)

/-- A unary operator in front of its operand is one token. An equals sign would go on with `!`. -/
theorem lexes_unarySign {op : UnaryOp} {sign : String} (h : sign ∈ op.signs) :
    ∃ token, Prefixes token op ∧ ∀ rest tokens, rest.head? ≠ some '=' → Lexes rest tokens →
      Lexes (sign.toList ++ rest) (token :: tokens) := by
  cases op with
  | not =>
    refine ⟨.not, .not, fun rest tokens hnext hrest ↦ ?_⟩
    rcases List.mem_cons.mp h with rfl | hword
    · have hscan : Expr.scan '!' rest = .ok ⟨.not, ['!'], rest⟩ := by
        have hsymbol : symbol? '!' rest.head? = some (.not, false) := if_neg hnext
        have hdigit : Char.isDigit '!' ≠ true := by decide
        have hquote : ¬('!' = '\'' ∨ '!' = '"') := by decide
        have hword : startsWord '!' ≠ true := by decide
        rw [Expr.scan, if_neg hdigit, if_neg hquote, if_neg hword, hsymbol]
      exact .scan rfl hscan hrest
    · obtain rfl := List.mem_singleton.mp hword
      have hscan : Expr.scan 'n' ("ot".toList ++ ' ' :: rest) =
          .ok ⟨.not, "not".toList, ' ' :: rest⟩ := rfl
      exact .scan rfl hscan (.blank rfl hrest)
  | neg =>
    refine ⟨.minus, .minus, fun rest tokens _ hrest ↦ ?_⟩
    obtain rfl := List.mem_singleton.mp h
    have hscan : Expr.scan '-' rest = .ok ⟨.minus, ['-'], rest⟩ := rfl
    exact .scan rfl hscan hrest

theorem Reads.unary {op : UnaryOp} {sign : String} (hsign : sign ∈ op.signs) {inner : List Char}
    {tokens : List Token} (hinner : Reads inner tokens)
    (hhead : ∃ c cs, inner = c :: cs ∧ c ≠ '=') :
    ∃ token, Prefixes token op ∧ Reads (sign.toList ++ inner) (token :: tokens) := by
  obtain ⟨token, hprefix, hsigned⟩ := lexes_unarySign hsign
  obtain ⟨c, cs, rfl, hc⟩ := hhead
  refine ⟨token, hprefix, ?_⟩
  intro rest others hends hrest
  have hnext : (c :: cs ++ rest).head? ≠ some '=' := by
    intro heq
    exact hc (Option.some.inj heq)
  rw [List.append_assoc]
  exact hsigned _ _ hnext (hinner rest others hends hrest)

theorem Reads.binary {op : BinaryOp} {sign : String} (hsign : sign ∈ op.signs)
    {front back : List Char} {left right : List Token} (hfront : Reads front left)
    (hback : Reads back right) :
    ∃ token, Joins op.level token op ∧
      Reads (front ++ ' ' :: (sign.toList ++ ' ' :: back)) (left ++ token :: right) := by
  obtain ⟨token, hjoins, hsigned⟩ := lexes_sign hsign
  refine ⟨token, hjoins, ?_⟩
  intro rest others hends hrest
  have hsecond := hsigned _ _ (hback rest others hends hrest)
  have hfirst := hfront _ _ (ends_cons rfl _) (.blank (c := ' ') rfl hsecond)
  rw [List.append_assoc, List.append_assoc, List.cons_append, List.cons_append, List.append_assoc,
    List.cons_append]
  exact hfirst

/-! ### Expressions -/

/-- A text that is written for an expression does not begin with an equals sign. -/
theorem head_ne_of_written {expr : Expr} {text : List Char} (h : Written lookupOf expr text)
    (hplain : expr.Plain) : ∃ c cs, text = c :: cs ∧ c ≠ '=' := by
  induction h with
  | int n =>
    rw [toList_toString hplain]
    generalize hlist : Nat.toDigits 10 n.toInt.toNat = digits
    cases digits with
    | nil => exact absurd hlist Nat.toDigits_ne_nil
    | cons c cs =>
      refine ⟨c, cs, rfl, ?_⟩
      rintro rfl
      have hdigit : '='.isDigit = true := Nat.isDigit_of_mem_toDigits (b := 10)
        (n := n.toInt.toNat) (by decide) (by decide) (hlist ▸ List.mem_cons_self)
      exact absurd hdigit (by decide)
  | bool b =>
    cases b
    · exact ⟨'f', _, rfl, by decide⟩
    · exact ⟨'t', _, rfl, by decide⟩
  | null => exact ⟨'n', _, rfl, by decide⟩
  | string s hquote =>
    refine ⟨_, _, rfl, ?_⟩
    rcases hquote with rfl | rfl <;> decide
  | lookup name => exact ⟨'l', _, rfl, by decide⟩
  | index _ _ ih _ =>
    obtain ⟨c, cs, rfl, hc⟩ := ih hplain.1
    exact ⟨c, _, rfl, hc⟩
  | unary _ _ _ => exact ⟨'(', _, rfl, by decide⟩
  | binary _ _ _ _ _ => exact ⟨'(', _, rfl, by decide⟩

/-- The text of an expression is read as the tokens of one of its phrases. -/
theorem reads_of_written {expr : Expr} {text : List Char} (h : Written lookupOf expr text)
    (hplain : expr.Plain) :
    ∃ phrase : Phrase 7, phrase.expr = expr ∧ phrase.nesting + 2 ≤ 2 * expr.height ∧
      Reads text phrase.tokens := by
  induction h with
  | int n => exact ⟨.tighter (.literal _ _ (.int n)), rfl, Nat.le_refl 2, .int hplain⟩
  | bool b =>
    cases b with
    | false =>
      exact ⟨.tighter (.literal _ _ .falseWord), rfl, Nat.le_refl 2, .word "false" rfl rfl rfl rfl⟩
    | true =>
      exact ⟨.tighter (.literal _ _ .trueWord), rfl, Nat.le_refl 2, .word "true" rfl rfl rfl rfl⟩
  | null =>
    exact ⟨.tighter (.literal _ _ .nullWord), rfl, Nat.le_refl 2, .word "null" rfl rfl rfl rfl⟩
  | string s hquote =>
    exact ⟨.tighter (.literal _ _ (.string s)), rfl, Nat.le_refl 2, .quoted hquote s⟩
  | lookup name =>
    have hname : ∀ c ∈ name.toList, isReferenceChar c = true := by
      intro c hc
      exact isReferenceChar_of_isNameChar (hplain.2 c hc)
    exact ⟨.tighter (.lookup name), rfl, Nat.le_refl 2, .lookupOf hname⟩
  | index _ _ ihtarget ihkey =>
    obtain ⟨target, rfl, htarget, hfront⟩ := ihtarget hplain.1
    obtain ⟨key, rfl, hkey, hinner⟩ := ihkey hplain.2
    obtain ⟨loose, htokens, hexpr, hnesting⟩ := key.exists_looser (Nat.zero_le 7)
    rw [← htokens] at hinner
    refine ⟨.index target loose, congrArg (Expr.index target.expr) hexpr, ?_, hfront.index hinner⟩
    show max target.nesting (loose.nesting + 1) + 2 ≤
      2 * (max target.expr.height key.expr.height + 1)
    omega
  | unary hsign hoperand ih =>
    obtain ⟨operand, rfl, hheight, hinner⟩ := ih hplain
    obtain ⟨token, hprefix, hunary⟩ := hinner.unary hsign (head_ne_of_written hoperand hplain)
    obtain ⟨loose, htokens, hexpr, hnesting⟩ :=
      (Phrase.unary token _ hprefix operand.tighter).exists_looser (Nat.zero_le 6)
    have hread := hunary.of_eq htokens
    refine ⟨.tighter (.group loose), hexpr, ?_, hread.group⟩
    have hopen : loose.nesting = operand.nesting + 1 := hnesting
    show loose.nesting + 1 + 2 ≤ 2 * (operand.expr.height + 1)
    omega
  | @binary op _ hsign _ _ _ _ _ _ ihleft ihright =>
    obtain ⟨left, rfl, hleft, hfront⟩ := ihleft hplain.1
    obtain ⟨right, rfl, hright, hback⟩ := ihright hplain.2
    have hlevel := op.level_lt
    obtain ⟨left', hleftTokens, hleftExpr, hleftNesting⟩ :=
      left.exists_looser (by omega : op.level ≤ 7)
    obtain ⟨right', hrightTokens, hrightExpr, hrightNesting⟩ :=
      right.exists_looser (by omega : op.level + 1 ≤ 7)
    rw [← hleftTokens] at hfront
    rw [← hrightTokens] at hback
    obtain ⟨token, hjoins, hbinary⟩ := hfront.binary hsign hback
    obtain ⟨loose, htokens, hexpr, hnesting⟩ :=
      (Phrase.chain left' token op hjoins right').exists_looser (Nat.zero_le op.level)
    have hread := hbinary.of_eq htokens
    refine ⟨.tighter (.group loose), ?_, ?_, hread.group⟩
    · show loose.expr = .binary op left.expr right.expr
      rw [hexpr, ← hleftExpr, ← hrightExpr]
      rfl
    · have hopen : loose.nesting = max left'.nesting right'.nesting := hnesting
      show loose.nesting + 1 + 2 ≤ 2 * (max left.expr.height right.expr.height + 1)
      omega

/-- A text with its look-ups written out compiles to the expression that it is written for. -/
theorem compile_of_written {expr : Expr} {text : List Char} (h : Written lookupOf expr text)
    (hplain : expr.Plain) (hheight : expr.height ≤ 64) :
    compile (String.ofList text) = .ok expr := by
  obtain ⟨phrase, rfl, hnesting, hreads⟩ := reads_of_written h hplain
  have hread := hreads [] [] (fun _ hc ↦ nomatch hc) .nil
  rw [List.append_nil, List.append_nil] at hread
  exact compile_of_lexes hread (by rw [nestingLimit]; omega) (by rw [nestingLimit]; omega)

end Expr

end FlowGate

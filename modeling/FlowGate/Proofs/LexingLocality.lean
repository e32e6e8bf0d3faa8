import FlowGate.Proofs.Lexing
import FlowGate.Proofs.ReferenceRuns

/-!
# Lexing is local

A token is read alike wherever it ends in front of a character that no token goes on with
(`scan_followedBy`). So a text in front of such a character keeps its tokens, and what follows is
read as if it stood alone, further to the right (`tokenizeFrom_followedBy`, `tokenizeFrom_add`). A
text that misses a closing quote is the exception: it looks for the quote in what follows.

Blanks separate tokens in this way, which is what `tokenize_separated` says of two texts with blanks
between them. It also says where tokens stand: at characters of the text, each further to the right
than the one before.
-/

set_option autoImplicit false

namespace FlowGate

/-- The token as many bytes further to the right. -/
def TokenAt.later (distance : Nat) (token : TokenAt) : TokenAt :=
  { token with position := token.position + distance }

/-- The cause reported as many bytes further to the right. -/
def CompileError.later (distance : Nat) : CompileError → CompileError
  | lexical fault position => lexical fault (position + distance)
  | syntactic fault position => syntactic fault (position + distance)
  | tooDeep position => tooDeep (position + distance)
  | unknownFunction name position => unknownFunction name (position + distance)

theorem byteLength_eq_utf8ByteSize (cs : List Char) :
    byteLength cs = (String.ofList cs).utf8ByteSize := by
  induction cs with
  | nil => rfl
  | cons c cs ih =>
    rw [byteLength, String.ofList_cons, String.utf8ByteSize_append, String.utf8ByteSize_singleton,
      ih]

theorem byteLength_toList (text : String) : byteLength text.toList = text.utf8ByteSize := by
  rw [byteLength_eq_utf8ByteSize, String.ofList_toList]

namespace Expr

/-- No token goes on with the first character of the text. -/
def Separates (rest : List Char) : Prop :=
  ∀ c ∈ rest.head?, continuesWord c = false ∧ c ≠ '.' ∧ c ≠ '=' ∧ c ≠ '&' ∧ c ≠ '|'

/-- What is read of a text, with more text behind it. -/
def Scanned.followedBy (rest : List Char) (scanned : Scanned) : Scanned :=
  { scanned with rest := scanned.rest ++ rest }

/-! ### Single tokens -/

/-- An integer literal, if 64 bits hold it. -/
def scannedInteger (whole rest : List Char) : Except LexFault Scanned :=
  match Integer.ofInt? (natOfDigits whole) with
  | some n => .ok ⟨.int n, whole, rest⟩
  | none => .error (.invalidNumber (String.ofList whole))

section Single

variable {c : Char} {cs rest : List Char}

/-- Digits without a point and a digit after them are an integer. -/
theorem scanNumber_eq_integer
    (h : ∀ d more, cs.dropWhile Char.isDigit = '.' :: d :: more → d.isDigit = false) :
    scanNumber c cs =
      scannedInteger (c :: cs.takeWhile Char.isDigit) (cs.dropWhile Char.isDigit) := by
  rw [scanNumber]
  dsimp only
  split
  · rename_i d more heq
    rw [h d more heq]
    rfl
  · rfl

/-- Digits with a point and a digit after them are a double. -/
theorem scanNumber_eq_float {d : Char} {more : List Char}
    (h : cs.dropWhile Char.isDigit = '.' :: d :: more) (hd : d.isDigit = true) :
    scanNumber c cs =
      .ok ⟨.float (Decimal.ofDigits (c :: cs.takeWhile Char.isDigit)
          (d :: more.takeWhile Char.isDigit)).toFloat,
        c :: cs.takeWhile Char.isDigit ++ '.' :: d :: more.takeWhile Char.isDigit,
        more.dropWhile Char.isDigit⟩ := by
  rw [scanNumber, h]
  exact if_pos hd

theorem scannedInteger_followedBy (whole left : List Char) :
    scannedInteger whole (left ++ rest) =
      (scannedInteger whole left).map (Scanned.followedBy rest) := by
  unfold scannedInteger
  cases Integer.ofInt? (natOfDigits whole) <;> rfl

theorem Separates.not_isDigit (h : Separates rest) : ∀ d ∈ rest.head?, d.isDigit = false := by
  intro d hd
  have hword := (h d hd).1
  simp only [continuesWord, Char.isAlphanum, Bool.or_eq_false_iff] at hword
  exact hword.1.2

theorem scanNumber_followedBy (hrest : Separates rest) :
    scanNumber c (cs ++ rest) = (scanNumber c cs).map (Scanned.followedBy rest) := by
  obtain ⟨htake, hdrop⟩ := takeWhile_append_of_head cs hrest.not_isDigit
  by_cases hpoint : ∃ d more, cs.dropWhile Char.isDigit = '.' :: d :: more ∧ d.isDigit = true
  · obtain ⟨d, more, hleft, hd⟩ := hpoint
    obtain ⟨hfraction, hmore⟩ := takeWhile_append_of_head more hrest.not_isDigit
    have happended : (cs ++ rest).dropWhile Char.isDigit = '.' :: d :: (more ++ rest) := by
      rw [hdrop, hleft]
      rfl
    rw [scanNumber_eq_float hleft hd, scanNumber_eq_float happended hd, htake, hfraction, hmore]
    rfl
  · have hinteger : ∀ d more, cs.dropWhile Char.isDigit = '.' :: d :: more → d.isDigit = false := by
      intro d more hleft
      exact Bool.eq_false_iff.mpr fun hd ↦ hpoint ⟨d, more, hleft, hd⟩
    have happended : ∀ d more, (cs ++ rest).dropWhile Char.isDigit = '.' :: d :: more →
        d.isDigit = false := by
      intro d more heq
      rw [hdrop] at heq
      -- the point and the digit after it may stand on either side of the cut
      match hleft : cs.dropWhile Char.isDigit with
      | [] =>
        rw [hleft] at heq
        exact absurd rfl (hrest '.' (by rw [← List.nil_append rest, heq]; rfl)).2.1
      | [e] =>
        rw [hleft] at heq
        obtain ⟨-, rfl⟩ := List.cons.inj heq
        exact hrest.not_isDigit d rfl
      | e :: f :: others =>
        rw [hleft] at heq
        obtain ⟨rfl, htail⟩ := List.cons.inj heq
        obtain ⟨rfl, -⟩ := List.cons.inj htail
        exact hinteger f others hleft
    rw [scanNumber_eq_integer hinteger, scanNumber_eq_integer happended, htake, hdrop,
      scannedInteger_followedBy]

/-- A text between quotes is read up to its closing quote whatever follows. -/
theorem scanQuoted_followedBy {quote : Char} {content taken left : List Char}
    (h : scanQuoted quote cs = some (content, taken, left)) :
    scanQuoted quote (cs ++ rest) = some (content, taken, left ++ rest) := by
  fun_induction scanQuoted quote cs generalizing content taken left with
  | case1 => cases h
  | case2 cs =>
    cases h
    rw [List.cons_append, scanQuoted.eq_def]
    exact if_pos rfl
  | case3 => cases h
  | case4 escaped more hquote ih =>
    obtain ⟨⟨content', taken', left'⟩, hmore, heq⟩ := Option.map_eq_some_iff.mp h
    cases heq
    rw [List.cons_append, List.cons_append, scanQuoted.eq_def]
    dsimp only
    rw [if_neg hquote, if_pos rfl, ih hmore]
    rfl
  | case5 c cs hquote hbackslash ih =>
    obtain ⟨⟨content', taken', left'⟩, hmore, heq⟩ := Option.map_eq_some_iff.mp h
    cases heq
    rw [List.cons_append, scanQuoted.eq_def]
    dsimp only
    rw [if_neg hquote, if_neg hbackslash, ih hmore]
    rfl

/-- What separates tokens is no second character of a symbol. -/
theorem symbol?_head?_append (hrest : Separates rest) :
    symbol? c (cs ++ rest).head? = symbol? c cs.head? := by
  cases cs with
  | cons d ds => rfl
  | nil =>
    have hequal : rest.head? ≠ some '=' := fun h ↦ (hrest '=' h).2.2.1 rfl
    have hand : rest.head? ≠ some '&' := fun h ↦ (hrest '&' h).2.2.2.1 rfl
    have hor : rest.head? ≠ some '|' := fun h ↦ (hrest '|' h).2.2.2.2 rfl
    rw [List.nil_append, List.head?_nil]
    unfold symbol?
    simp only [hequal, hand, hor, if_false]
    rfl

/-- The second character of a symbol is one of three. -/
theorem next_of_symbol? {next : Option Char} {token : Token}
    (h : symbol? c next = some (token, true)) :
    next = some '=' ∨ next = some '&' ∨ next = some '|' := by
  unfold symbol? at h
  grind

/-- A token is read alike in front of what separates tokens. So is a fault, unless it is that a
closing quote is missing. -/
theorem scan_followedBy (hrest : Separates rest)
    (hclosed : scan c cs ≠ .error .unterminatedString) :
    scan c (cs ++ rest) = (scan c cs).map (Scanned.followedBy rest) := by
  unfold scan at hclosed ⊢
  by_cases hdigit : c.isDigit
  · rw [if_pos hdigit, if_pos hdigit]
    exact scanNumber_followedBy hrest
  · rw [if_neg hdigit] at hclosed ⊢
    rw [if_neg hdigit]
    by_cases hquote : c = '\'' ∨ c = '"'
    · rw [if_pos hquote] at hclosed ⊢
      rw [if_pos hquote]
      cases hread : scanQuoted c cs with
      | none =>
        rw [hread] at hclosed
        exact absurd rfl hclosed
      | some read =>
        obtain ⟨content, taken, left⟩ := read
        rw [scanQuoted_followedBy hread]
        rfl
    · rw [if_neg hquote, if_neg hquote]
      by_cases hword : startsWord c
      · have hcontinues : ∀ d ∈ rest.head?, continuesWord d = false := fun d hd ↦ (hrest d hd).1
        obtain ⟨htake, hdrop⟩ := takeWhile_append_of_head cs hcontinues
        rw [if_pos hword, if_pos hword, htake, hdrop]
        rfl
      · rw [if_neg hword, if_neg hword, symbol?_head?_append hrest]
        match hsymbol : symbol? c cs.head? with
        | none => rfl
        | some (token, false) => rfl
        | some (token, true) =>
          cases cs with
          | nil => rcases next_of_symbol? hsymbol with h | h | h <;> cases h
          | cons d ds => rfl

end Single

/-! ### Texts -/

/-- The tokens of a text in front of what separates tokens come first, and then those of what
follows. If the text has a fault, then so does the whole, unless a closing quote is missing. -/
theorem tokenizeFrom_followedBy {position : Nat} {cs rest : List Char} (hrest : Separates rest)
    (hclosed : ∀ start, tokenizeFrom position cs ≠ .error (.lexical .unterminatedString start)) :
    tokenizeFrom position (cs ++ rest) = tokenizeFrom position cs >>= fun tokens ↦
      (tokenizeFrom (position + byteLength cs) rest).map (tokens ++ ·) := by
  fun_induction tokenizeFrom position cs with
  | case1 position =>
    rw [ok_bind, byteLength, Nat.add_zero, List.nil_append]
    cases tokenizeFrom position rest <;> rfl
  | case2 position c cs hblank ih =>
    rw [List.cons_append, tokenizeFrom_blank hblank, ih hclosed, byteLength, Nat.add_assoc]
  | case3 position c cs hblank fault hfault =>
    have hopen : fault ≠ .unterminatedString := by
      rintro rfl
      exact hclosed position rfl
    have hread : scan c (cs ++ rest) = .error fault := by
      rw [scan_followedBy hrest (by rw [hfault]; simpa using hopen), hfault]
      rfl
    rw [List.cons_append, tokenizeFrom_fault (by simpa using hblank) hread, error_bind]
  | case4 position c cs hblank scanned hscan _ ih =>
    have hread : scan c (cs ++ rest) = .ok (scanned.followedBy rest) := by
      rw [scan_followedBy hrest (by rw [hscan]; intro h; cases h), hscan]
      rfl
    have hlength : byteLength scanned.lexeme + byteLength scanned.rest = byteLength (c :: cs) := by
      rw [← byteLength_append, lexeme_append_rest hscan]
    have hleft : ∀ start, tokenizeFrom (position + byteLength scanned.lexeme) scanned.rest ≠
        .error (.lexical .unterminatedString start) := by
      intro start h
      exact hclosed start (by rw [h]; rfl)
    rw [List.cons_append, tokenizeFrom_scan (by simpa using hblank) hread]
    dsimp only [Scanned.followedBy]
    rw [ih hleft, Nat.add_assoc, hlength]
    cases tokenizeFrom (position + byteLength scanned.lexeme) scanned.rest with
    | error cause => rfl
    | ok tokens => cases tokenizeFrom (position + byteLength (c :: cs)) rest <;> rfl

/-- A text further to the right has its tokens, or its fault, further to the right. -/
theorem tokenizeFrom_add (distance position : Nat) (cs : List Char) :
    tokenizeFrom (position + distance) cs =
      ((tokenizeFrom position cs).map (List.map (.later distance))).mapError (.later distance) := by
  fun_induction tokenizeFrom position cs with
  | case1 position => exact tokenizeFrom_nil _
  | case2 position c cs hblank ih =>
    rw [tokenizeFrom_blank hblank, Nat.add_right_comm]
    exact ih
  | case3 position c cs hblank fault hfault =>
    exact tokenizeFrom_fault (by simpa using hblank) hfault _
  | case4 position c cs hblank scanned hscan _ ih =>
    rw [tokenizeFrom_scan (by simpa using hblank) hscan, Nat.add_right_comm, ih]
    cases tokenizeFrom (position + byteLength scanned.lexeme) scanned.rest <;> rfl

/-- Blanks in front of a text only move its tokens. -/
theorem tokenizeFrom_blanks {blanks : List Char} (hblanks : ∀ c ∈ blanks, Text.isBlank c = true)
    (position : Nat) (cs : List Char) :
    tokenizeFrom position (blanks ++ cs) = tokenizeFrom (position + byteLength blanks) cs := by
  induction blanks generalizing position with
  | nil => rfl
  | cons c blanks ih =>
    obtain ⟨hc, hrest⟩ := List.forall_mem_cons.mp hblanks
    rw [List.cons_append, tokenizeFrom_blank hc, ih hrest, byteLength, Nat.add_assoc]

/-- A token starts at a character of the text, and the next one further to the right. -/
theorem places_of_tokenizeFrom {position : Nat} {cs : List Char} {tokens : List TokenAt}
    (h : tokenizeFrom position cs = .ok tokens) :
    tokens.Pairwise (·.position < ·.position) ∧
      ∀ token ∈ tokens, ∃ before c after, cs = before ++ c :: after ∧
        token.position = position + byteLength before := by
  fun_induction tokenizeFrom position cs generalizing tokens with
  | case1 position =>
    cases h
    exact ⟨.nil, fun token htoken ↦ absurd htoken List.not_mem_nil⟩
  | case2 position c cs hblank ih =>
    obtain ⟨hpairwise, hplaces⟩ := ih h
    refine ⟨hpairwise, fun token htoken ↦ ?_⟩
    obtain ⟨before, d, after, rfl, hplace⟩ := hplaces token htoken
    exact ⟨c :: before, d, after, rfl, by rw [hplace, byteLength, Nat.add_assoc]⟩
  | case3 => cases h
  | case4 position c cs hblank scanned hscan _ ih =>
    obtain ⟨others, hothers, rfl⟩ := map_eq_ok_iff.mp h
    obtain ⟨hpairwise, hplaces⟩ := ih hothers
    have hpositive : 0 < byteLength scanned.lexeme := by
      obtain ⟨d, ds, hlexeme⟩ := List.exists_cons_of_ne_nil (lexeme_ne_nil hscan)
      have hd := d.utf8Size_pos
      rw [hlexeme, byteLength]
      omega
    refine ⟨List.pairwise_cons.mpr ⟨fun token htoken ↦ ?_, hpairwise⟩,
      List.forall_mem_cons.mpr ⟨⟨[], c, cs, rfl, rfl⟩, fun token htoken ↦ ?_⟩⟩
    · obtain ⟨before, d, after, -, hplace⟩ := hplaces token htoken
      show position < token.position
      omega
    · obtain ⟨before, d, after, hrest, hplace⟩ := hplaces token htoken
      refine ⟨scanned.lexeme ++ before, d, after, ?_, ?_⟩
      · rw [List.append_assoc, ← hrest, lexeme_append_rest hscan]
      · rw [hplace, byteLength_append, Nat.add_assoc]

/-- The tokens of a text start at character boundaries before its end. -/
theorem isValid_of_mem_tokenize {text : String} {tokens : List TokenAt}
    (h : tokenize text.toList = .ok tokens) {token : TokenAt} (htoken : token ∈ tokens) :
    String.Pos.Raw.IsValid text ⟨token.position⟩ ∧ token.position < text.utf8ByteSize := by
  obtain ⟨before, c, after, htext, hplace⟩ := (places_of_tokenizeFrom h).2 token htoken
  rw [Nat.zero_add] at hplace
  have hvalid := Reference.isValid_of_toList_eq htext
  have hpositive := c.utf8Size_pos
  rw [Reference.length_utf8, ← hplace] at hvalid
  refine ⟨hvalid, ?_⟩
  rw [← byteLength_toList, htext, byteLength_append, byteLength, hplace]
  omega

theorem separates_cons {c : Char}
    (h : continuesWord c = false ∧ c ≠ '.' ∧ c ≠ '=' ∧ c ≠ '&' ∧ c ≠ '|') (rest : List Char) :
    Separates (c :: rest) := by
  intro d hd
  obtain rfl := Option.mem_some.mp hd
  exact h

/-- A blank separates tokens. -/
theorem separates_of_isBlank {c : Char} (h : Text.isBlank c = true) (rest : List Char) :
    Separates (c :: rest) := by
  have hrange : ¬(33 ≤ c.toNat ∧ c.toNat ≤ 132) := by
    intro hrange
    rw [isBlank_of_toNat hrange.1 hrange.2] at h
    cases h
  refine separates_cons ⟨?_, ?_, ?_, ?_, ?_⟩ rest
  · by_contra hword
    have := toNat_of_continuesWord (Bool.not_eq_false _ ▸ hword)
    omega
  all_goals
    rintro rfl
    exact hrange (by decide)

/-- Texts with blanks between them are split into tokens one by one. If the first has tokens, then
the whole has these and then the tokens of the second, as many bytes further to the right as the
first text and the blanks take up, or it has the fault of the second, reported that much further to
the right. Tokens start at character boundaries, each further to the right than the one before. -/
theorem tokenize_separated :
    (∀ first blanks second : String, ∀ tokens : List TokenAt, blanks ≠ "" →
      (∀ c ∈ blanks.toList, Text.isBlank c = true) → tokenize first.toList = .ok tokens →
      (∀ others, tokenize second.toList = .ok others →
        tokenize (first ++ blanks ++ second).toList =
          .ok (tokens ++ others.map (.later (first ++ blanks).utf8ByteSize))) ∧
      ∀ cause, tokenize second.toList = .error cause →
        tokenize (first ++ blanks ++ second).toList =
          .error (cause.later (first ++ blanks).utf8ByteSize)) ∧
    ∀ (text : String) (tokens : List TokenAt), tokenize text.toList = .ok tokens →
      tokens.Pairwise (·.position < ·.position) ∧
        ∀ token ∈ tokens, String.Pos.Raw.IsValid text ⟨token.position⟩ ∧
          token.position < text.utf8ByteSize := by
  refine ⟨fun first blanks second tokens hne hblanks hfirst ↦ ?_, fun text tokens htokens ↦
    ⟨(places_of_tokenizeFrom htokens).1, fun token ↦ isValid_of_mem_tokenize htokens⟩⟩
  have hseparates : Separates (blanks.toList ++ second.toList) := by
    match hlist : blanks.toList with
    | [] => exact absurd (String.toList_eq_nil_iff.mp hlist) hne
    | c :: cs => exact separates_of_isBlank (hblanks c (hlist ▸ List.mem_cons_self)) _
  have hwhole : tokenize (first ++ blanks ++ second).toList =
      (((tokenize second.toList).map (List.map (.later (first ++ blanks).utf8ByteSize))).mapError
        (.later (first ++ blanks).utf8ByteSize)).map (tokens ++ ·) := by
    rw [String.toList_append, String.toList_append, List.append_assoc, tokenize,
      tokenizeFrom_followedBy hseparates (by rw [← tokenize, hfirst]; nofun), ← tokenize, hfirst,
      ok_bind, tokenizeFrom_blanks hblanks, byteLength_toList, byteLength_toList, Nat.add_assoc,
      ← String.utf8ByteSize_append, tokenizeFrom_add, tokenize]
  constructor
  · intro others hothers
    rw [hwhole, hothers]
    rfl
  · intro cause hcause
    rw [hwhole, hcause]
    rfl

/-- Over a wide blank, `>` and `=` are no symbol of two characters, and a quoted text does not reach
into what follows. -/
theorem tokenize_separated_wideBlank :
    tokenize "1>".toList = .ok [⟨.int 1, 0⟩, ⟨.greater, 1⟩] ∧
      tokenize "= 2".toList = .error (.lexical (.unexpectedChar '=') 0) ∧
      tokenize ("1>" ++ "\u2003" ++ "= 2").toList = .error (.lexical (.unexpectedChar '=') 5) ∧
      tokenize "'é'".toList = .ok [⟨.string "é", 0⟩] ∧
      tokenize ("1>" ++ "\u2003" ++ "'é'").toList =
        .ok [⟨.int 1, 0⟩, ⟨.greater, 1⟩, ⟨.string "é", 5⟩] ∧
      String.Pos.Raw.IsValid ("1>" ++ "\u2003" ++ "'é'") ⟨5⟩ := by
  have hblank : ∀ c ∈ "\u2003".toList, Text.isBlank c = true := List.all_eq_true.mp rfl
  have hfirst : tokenize "1>".toList = .ok [⟨.int 1, 0⟩, ⟨.greater, 1⟩] := by
    have hone : scan '1' ['>'] = .ok ⟨.int 1, ['1'], ['>']⟩ := rfl
    have hgreater : scan '>' [] = .ok ⟨.greater, ['>'], []⟩ := rfl
    show tokenizeFrom 0 ['1', '>'] = _
    rw [tokenizeFrom_scan rfl hone, tokenizeFrom_scan rfl hgreater, tokenizeFrom_nil]
    rfl
  have hfault : tokenize "= 2".toList = .error (.lexical (.unexpectedChar '=') 0) := by
    have hequal : scan '=' [' ', '2'] = .error (.unexpectedChar '=') := rfl
    exact tokenizeFrom_fault rfl hequal 0
  have hquoted : tokenize "'é'".toList = .ok [⟨.string "é", 0⟩] := by
    have hscan : scan '\'' ['é', '\''] = .ok ⟨.string "é", ['\'', 'é', '\''], []⟩ := rfl
    show tokenizeFrom 0 ['\'', 'é', '\''] = _
    rw [tokenizeFrom_scan rfl hscan, tokenizeFrom_nil]
    rfl
  obtain ⟨hseparated, hplaces⟩ := tokenize_separated
  obtain ⟨htokens, -⟩ := hseparated _ _ "'é'" _ (by decide) hblank hfirst
  have hwhole := htokens _ hquoted
  have hlast := (hplaces _ _ hwhole).2 _ (List.mem_append_right _ List.mem_cons_self)
  exact ⟨hfirst, hfault, (hseparated _ _ _ _ (by decide) hblank hfirst).2 _ hfault, hquoted,
    hwhole, hlast.1⟩

end Expr

end FlowGate

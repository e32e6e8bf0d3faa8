import FlowGate.Expr.Parser
import FlowGate.Proofs.Outcomes
import FlowGate.Proofs.Runs

/-!
# Texts and their tokens

`Lexes` says which tokens a text is split into, leaving out where they stand. The lemmas that follow
build it from the end of the text: blanks are skipped, and each kind of token is read whole if what
comes after it does not continue it.

The other way round, what is left after some of the tokens of a text is the text after some of its
characters (`exists_rest_of_tokenizeFrom`), and a name takes up the characters of the name
(`exists_rest_of_name`).
-/

set_option autoImplicit false

namespace FlowGate.Expr

/-- A text is split into the tokens, wherever it starts. -/
def Lexes (cs : List Char) (tokens : List Token) : Prop :=
  ∀ position, ∃ read, tokenizeFrom position cs = .ok read ∧ read.map TokenAt.token = tokens

/-! ### Single steps -/

theorem tokenizeFrom_nil (position : Nat) : tokenizeFrom position [] = .ok [] := by
  rw [tokenizeFrom.eq_def]

theorem tokenizeFrom_blank {c : Char} (h : Text.isBlank c = true) (position : Nat)
    (cs : List Char) :
    tokenizeFrom position (c :: cs) = tokenizeFrom (position + c.utf8Size) cs := by
  rw [tokenizeFrom.eq_def]
  exact if_pos h

theorem tokenizeFrom_scan {c : Char} (hblank : Text.isBlank c = false) {cs : List Char}
    {scanned : Scanned} (hscan : scan c cs = .ok scanned) (position : Nat) :
    tokenizeFrom position (c :: cs) =
      (tokenizeFrom (position + byteLength scanned.lexeme) scanned.rest).map
        (⟨scanned.token, position⟩ :: ·) := by
  rw [tokenizeFrom.eq_def]
  dsimp only
  rw [if_neg (by simp [hblank])]
  split
  · rename_i fault hfault
    rw [hscan] at hfault
    cases hfault
  · rename_i other hother
    rw [hscan] at hother
    cases hother
    rfl

theorem tokenizeFrom_fault {c : Char} (hblank : Text.isBlank c = false) {cs : List Char}
    {fault : LexFault} (hscan : scan c cs = .error fault) (position : Nat) :
    tokenizeFrom position (c :: cs) = .error (.lexical fault position) := by
  rw [tokenizeFrom.eq_def]
  dsimp only
  rw [if_neg (by simp [hblank])]
  split
  · rename_i other hother
    rw [hscan] at hother
    cases hother
    rfl
  · rename_i scanned hscanned
    rw [hscan] at hscanned
    cases hscanned

theorem Lexes.nil : Lexes [] [] :=
  fun position ↦ ⟨[], tokenizeFrom_nil position, rfl⟩

theorem Lexes.blank {c : Char} (hblank : Text.isBlank c = true) {cs : List Char}
    {tokens : List Token} (h : Lexes cs tokens) : Lexes (c :: cs) tokens := by
  intro position
  rw [tokenizeFrom_blank hblank]
  exact h _

theorem Lexes.scan {c : Char} (hblank : Text.isBlank c = false) {cs : List Char}
    {scanned : Scanned} (hscan : scan c cs = .ok scanned) {tokens : List Token}
    (h : Lexes scanned.rest tokens) : Lexes (c :: cs) (scanned.token :: tokens) := by
  intro position
  obtain ⟨read, hread, htokens⟩ := h (position + byteLength scanned.lexeme)
  rw [tokenizeFrom_scan hblank hscan, hread]
  exact ⟨⟨scanned.token, position⟩ :: read, rfl, by rw [List.map_cons, htokens]⟩

/-- A symbol of one character that nothing goes on with is a token. -/
theorem Lexes.symbol {c : Char} {token : Token} (hblank : Text.isBlank c = false)
    (hscan : ∀ rest, Expr.scan c rest = .ok ⟨token, [c], rest⟩) {rest : List Char}
    {tokens : List Token} (h : Lexes rest tokens) : Lexes (c :: rest) (token :: tokens) :=
  .scan hblank (hscan rest) h

/-- A text has the tokens that it is split into. -/
theorem Lexes.exists_tokenize {text : List Char} {tokens : List Token} (h : Lexes text tokens) :
    ∃ read, tokenize text = .ok read ∧ read.map TokenAt.token = tokens :=
  h 0

/-! ### Kinds of tokens -/

theorem isBlank_of_toNat {c : Char} (hlow : 33 ≤ c.toNat) (hhigh : c.toNat ≤ 132) :
    Text.isBlank c = false := by
  simp only [Text.isBlank, Bool.or_eq_false_iff, Bool.and_eq_false_iff, decide_eq_false_iff_not,
    beq_eq_false_iff_ne]
  omega

theorem toNat_of_isDigit {c : Char} (h : c.isDigit = true) : 48 ≤ c.toNat ∧ c.toNat ≤ 57 :=
  Char.isDigit_iff_toNat.mp h

theorem toNat_of_startsWord {c : Char} (h : startsWord c = true) :
    65 ≤ c.toNat ∧ c.toNat ≤ 122 := by
  rcases Bool.or_eq_true_iff.mp h with hletter | hunderscore
  · rcases Bool.or_eq_true_iff.mp hletter with hupper | hlower
    · have hrange := isUpper_iff_toNat.mp hupper
      omega
    · have hrange := isLower_iff_toNat.mp hlower
      omega
  · rw [eq_of_beq hunderscore]
    decide

theorem toNat_of_continuesWord {c : Char} (h : continuesWord c = true) :
    48 ≤ c.toNat ∧ c.toNat ≤ 122 := by
  by_cases hdigit : c.isDigit = true
  · have hrange := toNat_of_isDigit hdigit
    omega
  · have hstart : startsWord c = true := by
      simpa [continuesWord, startsWord, Char.isAlphanum, hdigit] using h
    have hrange := toNat_of_startsWord hstart
    omega

/-- A word is read up to a character that does not continue it. -/
theorem scan_word {c : Char} (hstart : startsWord c = true) {tail rest : List Char}
    (htail : ∀ d ∈ tail, continuesWord d = true)
    (hrest : ∀ d ∈ rest.head?, continuesWord d = false) :
    scan c (tail ++ rest) = .ok ⟨.ofWord (c :: tail), c :: tail, rest⟩ := by
  have hrange := toNat_of_startsWord hstart
  have hdigit : ¬c.isDigit = true := by
    intro h
    have hdigitRange := toNat_of_isDigit h
    omega
  have hquote : ¬(c = '\'' ∨ c = '"') := by
    rintro (rfl | rfl) <;> simp at hrange
  obtain ⟨htake, hdrop⟩ := takeWhile_append_of_stop htail hrest
  rw [scan, if_neg hdigit, if_neg hquote, if_pos hstart, htake, hdrop]

theorem Lexes.word {c : Char} (hstart : startsWord c = true) {tail rest : List Char}
    (htail : ∀ d ∈ tail, continuesWord d = true)
    (hrest : ∀ d ∈ rest.head?, continuesWord d = false) {tokens : List Token}
    (h : Lexes rest tokens) : Lexes (c :: (tail ++ rest)) (.ofWord (c :: tail) :: tokens) := by
  have hrange := toNat_of_startsWord hstart
  exact .scan (isBlank_of_toNat (by omega) (by omega)) (scan_word hstart htail hrest) h

/-- Digits are read up to a character that is neither a digit nor a point. -/
theorem scan_digits {c : Char} {digits rest : List Char} {n : Int64}
    (hdigits : ∀ d ∈ c :: digits, d.isDigit = true)
    (hrest : ∀ d ∈ rest.head?, d.isDigit = false ∧ d ≠ '.')
    (hvalue : Integer.ofInt? (natOfDigits (c :: digits)) = some n) :
    scan c (digits ++ rest) = .ok ⟨.int n, c :: digits, rest⟩ := by
  obtain ⟨hc, htail⟩ := List.forall_mem_cons.mp hdigits
  obtain ⟨htake, hdrop⟩ := takeWhile_append_of_stop htail fun d hd ↦ (hrest d hd).1
  rw [scan, if_pos hc, scanNumber, htake, hdrop, hvalue]
  dsimp only
  split
  · exact absurd rfl (hrest '.' rfl).2
  · rfl

theorem Lexes.digits {c : Char} {digits rest : List Char} {n : Int64}
    (hdigits : ∀ d ∈ c :: digits, d.isDigit = true)
    (hrest : ∀ d ∈ rest.head?, d.isDigit = false ∧ d ≠ '.')
    (hvalue : Integer.ofInt? (natOfDigits (c :: digits)) = some n) {tokens : List Token}
    (h : Lexes rest tokens) : Lexes (c :: (digits ++ rest)) (.int n :: tokens) := by
  have hrange := toNat_of_isDigit (hdigits c List.mem_cons_self)
  exact .scan (isBlank_of_toNat (by omega) (by omega)) (scan_digits hdigits hrest hvalue) h

/-- The decimal text of a number that is not negative. -/
theorem toList_toString {n : Int} (h : 0 ≤ n) : (toString n).toList = Nat.toDigits 10 n.toNat := by
  obtain ⟨m, rfl⟩ := Int.eq_ofNat_of_zero_le h
  exact Nat.toList_repr

/-- An integer is read back from its decimal text. -/
theorem Lexes.int {n : Int64} (hn : 0 ≤ n.toInt) {rest : List Char}
    (hrest : ∀ d ∈ rest.head?, d.isDigit = false ∧ d ≠ '.') {tokens : List Token}
    (h : Lexes rest tokens) : Lexes ((toString n.toInt).toList ++ rest) (.int n :: tokens) := by
  rw [toList_toString hn]
  have hdigits : ∀ d ∈ Nat.toDigits 10 n.toInt.toNat, d.isDigit = true := by
    intro d hd
    exact Nat.isDigit_of_mem_toDigits (by decide) (by decide) hd
  have hvalue : natOfDigits (Nat.toDigits 10 n.toInt.toNat) = n.toInt.toNat :=
    Nat.ofDigitChars_ten_toDigits
  generalize hlist : Nat.toDigits 10 n.toInt.toNat = digits at hdigits hvalue
  cases digits with
  | nil => exact absurd hlist Nat.toDigits_ne_nil
  | cons c digits =>
    refine .digits hdigits hrest ?_ h
    rw [hvalue, Int.toNat_of_nonneg hn, Integer.ofInt?_toInt]

/-- How a content can be spelled between two quotes: a character stands for itself unless it is the
quote or a backslash, and any character may follow a backslash. -/
inductive Spells (quote : Char) : List Char → List Char → Prop where
  | nil : Spells quote [] []
  | plain {c : Char} (hquote : c ≠ quote) (hbackslash : c ≠ '\\') {content text : List Char}
      (rest : Spells quote content text) : Spells quote (c :: content) (c :: text)
  | escaped (c : Char) {content text : List Char} (rest : Spells quote content text) :
      Spells quote (unescape c :: content) ('\\' :: c :: text)

theorem Spells.of_plain {quote : Char} {text : List Char}
    (h : ∀ c ∈ text, c ≠ quote ∧ c ≠ '\\') : Spells quote text text := by
  induction text with
  | nil => exact .nil
  | cons c cs ih =>
    obtain ⟨hc, hcs⟩ := List.forall_mem_cons.mp h
    exact .plain hc.1 hc.2 (ih hcs)

/-- The content with a backslash before each quote and backslash. -/
def escape (quote : Char) (content : List Char) : List Char :=
  content.flatMap fun c ↦ if c = quote ∨ c = '\\' then ['\\', c] else [c]

/-- A text without quotes and backslashes needs no escapes. -/
theorem escape_eq_self {quote : Char} {content : List Char} (hquote : quote ∉ content)
    (hbackslash : '\\' ∉ content) : escape quote content = content := by
  induction content with
  | nil => rfl
  | cons c content ih =>
    obtain ⟨hc, hcontent⟩ := not_or.mp (fun hmem ↦ hquote (List.mem_cons.mpr hmem))
    obtain ⟨hd, hrest⟩ := not_or.mp (fun hmem ↦ hbackslash (List.mem_cons.mpr hmem))
    rw [escape, List.flatMap_cons, if_neg (not_or.mpr ⟨Ne.symm hc, Ne.symm hd⟩)]
    exact congrArg (c :: ·) (ih hcontent hrest)

theorem Spells.escape {quote : Char} (hquote : quote = '\'' ∨ quote = '"') (content : List Char) :
    Spells quote content (escape quote content) := by
  induction content with
  | nil => exact .nil
  | cons c content ih =>
    rw [Expr.escape, List.flatMap_cons]
    by_cases hc : c = quote ∨ c = '\\'
    · have hself : unescape c = c := by
        rcases hc with rfl | rfl
        · rcases hquote with rfl | rfl <;> rfl
        · rfl
      have hspells := Spells.escaped c ih
      rw [hself] at hspells
      rw [if_pos hc]
      exact hspells
    · obtain ⟨hne, hbackslash⟩ := not_or.mp hc
      rw [if_neg hc]
      exact .plain hne hbackslash ih

/-- A spelled content is read back up to the closing quote. -/
theorem scanQuoted_of_spells {quote : Char} (hquote : quote ≠ '\\') {content text : List Char}
    (h : Spells quote content text) (rest : List Char) :
    scanQuoted quote (text ++ quote :: rest) = some (content, text ++ [quote], rest) := by
  induction h with
  | nil => rw [List.nil_append, scanQuoted.eq_def, List.nil_append]; simp
  | plain hc hbackslash _ ih =>
    rw [List.cons_append, scanQuoted.eq_def]
    simp only [hc, if_false, hbackslash, ih]
    rfl
  | escaped c _ ih =>
    rw [List.cons_append, List.cons_append, scanQuoted.eq_def]
    simp only [hquote.symm, if_false, ih]
    rfl

/-- A quoted text is read as the content that it spells. -/
theorem scan_quoted {quote : Char} (hquote : quote = '\'' ∨ quote = '"') {content text : List Char}
    (hspells : Spells quote content text) (rest : List Char) :
    scan quote (text ++ quote :: rest) =
      .ok ⟨.string (String.ofList content), quote :: (text ++ [quote]), rest⟩ := by
  have hbackslash : quote ≠ '\\' := by
    rcases hquote with rfl | rfl <;> decide
  have hdigit : ¬quote.isDigit = true := by
    rcases hquote with rfl | rfl <;> decide
  rw [scan, if_neg hdigit, if_pos hquote, scanQuoted_of_spells hbackslash hspells]

theorem isBlank_quote {quote : Char} (hquote : quote = '\'' ∨ quote = '"') :
    Text.isBlank quote = false := by
  rcases hquote with rfl | rfl <;> rfl

theorem Lexes.quoted {quote : Char} (hquote : quote = '\'' ∨ quote = '"')
    {content text rest : List Char} (hspells : Spells quote content text) {tokens : List Token}
    (h : Lexes rest tokens) :
    Lexes (quote :: (text ++ quote :: rest)) (.string (String.ofList content) :: tokens) :=
  .scan (isBlank_quote hquote) (scan_quoted hquote hspells rest) h

/-! ### Back to the text -/

theorem symbol?_ne_name (c : Char) (next : Option Char) (text : String) (more : Bool) :
    symbol? c next ≠ some (.name text, more) := by
  unfold symbol?
  grind

theorem ofWord_eq_name {word : List Char} {text : String} (h : Token.ofWord word = .name text) :
    word = text.toList := by
  unfold Token.ofWord at h
  split at h
  all_goals cases h
  rw [String.toList_ofList]

/-- A name takes up its own characters. -/
theorem lexeme_of_name {c : Char} {cs : List Char} {scanned : Scanned}
    (h : scan c cs = .ok scanned) {text : String} (hname : scanned.token = .name text) :
    scanned.lexeme = text.toList := by
  unfold scan at h
  split at h
  · unfold scanNumber at h
    grind
  · split at h
    · split at h
      · cases h
        cases hname
      · cases h
    · split at h
      · cases h
        exact ofWord_eq_name hname
      · split at h
        · rename_i token hsymbol
          cases h
          exact absurd (hname ▸ hsymbol) (symbol?_ne_name c cs.head? text false)
        · rename_i token hsymbol
          cases h
          exact absurd (hname ▸ hsymbol) (symbol?_ne_name c cs.head? text true)
        · cases h

/-- The first token of a text comes from its first character that is not blank. -/
theorem exists_scan_of_tokenizeFrom {position : Nat} {cs : List Char} {first : TokenAt}
    {back : List TokenAt} (h : tokenizeFrom position cs = .ok (first :: back)) :
    ∃ blanks c rest scanned later, cs = blanks ++ c :: rest ∧ scan c rest = .ok scanned ∧
      scanned.token = first.token ∧ tokenizeFrom later scanned.rest = .ok back := by
  fun_induction tokenizeFrom position cs with
  | case1 => cases h
  | case2 position c cs _ ih =>
    obtain ⟨blanks, d, rest, scanned, later, rfl, hscan, htoken, hback⟩ := ih h
    exact ⟨c :: blanks, d, rest, scanned, later, rfl, hscan, htoken, hback⟩
  | case3 => cases h
  | case4 position c cs _ scanned hscan _ ih =>
    obtain ⟨read, hread, heq⟩ := map_eq_ok_iff.mp h
    obtain ⟨rfl, rfl⟩ := List.cons.inj heq
    exact ⟨[], c, cs, scanned, _, rfl, hscan, rfl, hread⟩

/-- After some of the tokens of a text stands what is left of it. -/
theorem exists_rest_of_tokenizeFrom {front back : List TokenAt} {position : Nat} {cs : List Char}
    (h : tokenizeFrom position cs = .ok (front ++ back)) :
    ∃ consumed rest later, cs = consumed ++ rest ∧ tokenizeFrom later rest = .ok back := by
  induction front generalizing position cs with
  | nil => exact ⟨[], cs, position, rfl, h⟩
  | cons first front ih =>
    obtain ⟨blanks, c, rest, scanned, later, rfl, hscan, _, hback⟩ :=
      exists_scan_of_tokenizeFrom h
    obtain ⟨consumed, left, last, hleft, hlast⟩ := ih hback
    refine ⟨blanks ++ scanned.lexeme ++ consumed, left, last, ?_, hlast⟩
    rw [List.append_assoc, List.append_assoc, ← hleft, lexeme_append_rest hscan]

/-- A name is preceded by blanks at most and leaves the text after its characters. -/
theorem exists_rest_of_name {position start : Nat} {cs : List Char} {text : String}
    {back : List TokenAt} (h : tokenizeFrom position cs = .ok (⟨.name text, start⟩ :: back)) :
    ∃ blanks rest later, cs = blanks ++ (text.toList ++ rest) ∧
      tokenizeFrom later rest = .ok back := by
  obtain ⟨blanks, c, rest, scanned, later, rfl, hscan, htoken, hback⟩ :=
    exists_scan_of_tokenizeFrom h
  refine ⟨blanks, scanned.rest, later, ?_, hback⟩
  rw [← lexeme_of_name hscan htoken, lexeme_append_rest hscan]

end FlowGate.Expr

import FlowGate.Proofs.CompileGrammar

/-!
# How deep an expression may be

Two limits decide whether a text that the grammar derives compiles: the height of its tree, and how
many groups, index brackets and unary operators are open at once. `Phrase.openAt` counts at each
token of a derivation what is open there; `Phrase.nesting` is the greatest of these counts
(`Phrase.forall_openAt_le_iff`). A text compiles to the tree of its derivation if both keep the
limit, and is too deep otherwise (`compile_iff_within_limits`).
-/

set_option autoImplicit false

namespace FlowGate.Expr

namespace Phrase

/-- How many groups, index brackets and unary operators are open at each token, where `depth` of
them are open around the phrase. A bracket is open from its opening to its closing token and a unary
operator from its own token to the end of its operand. The parentheses of a look-up open nothing. -/
def openAt {level : Nat} (depth : Nat) : Phrase level → List Nat
  | tighter phrase => phrase.openAt depth
  | chain left _ _ _ right => left.openAt depth ++ depth :: right.openAt depth
  | unary _ _ _ operand => (depth + 1) :: operand.openAt (depth + 1)
  | index target key =>
    target.openAt depth ++ (depth + 1) :: (key.openAt (depth + 1) ++ [depth + 1])
  | literal _ _ _ => [depth]
  | group inner => (depth + 1) :: (inner.openAt (depth + 1) ++ [depth + 1])
  | lookup _ => [depth, depth, depth, depth]

/-- There is one count for each token. -/
theorem length_openAt {level : Nat} (depth : Nat) (phrase : Phrase level) :
    (phrase.openAt depth).length = phrase.tokens.length := by
  induction phrase generalizing depth with
  | tighter phrase ih => exact ih depth
  | chain left token op joins right ihleft ihright =>
    rw [openAt, tokens, List.length_append, List.length_append, List.length_cons,
      List.length_cons, ihleft, ihright]
  | unary token op prefixes operand ih => exact congrArg (· + 1) (ih (depth + 1))
  | index target key ihtarget ihkey => simp [openAt, tokens, ihtarget, ihkey]
  | literal token value denotes => rfl
  | group inner ih => simp [openAt, tokens, ih]
  | lookup name => rfl

/-- The nesting of a phrase is the greatest number of what it has open at a token. -/
theorem forall_openAt_le_iff {level : Nat} (depth bound : Nat) (phrase : Phrase level) :
    (∀ count ∈ phrase.openAt depth, count ≤ bound) ↔ depth + phrase.nesting ≤ bound := by
  induction phrase generalizing depth with
  | tighter phrase ih => exact ih depth
  | chain left token op joins right ihleft ihright =>
    rw [openAt, nesting, List.forall_mem_append, List.forall_mem_cons, ihleft, ihright]
    omega
  | unary token op prefixes operand ih =>
    rw [openAt, nesting, List.forall_mem_cons, ih]
    omega
  | index target key ihtarget ihkey =>
    rw [openAt, nesting, List.forall_mem_append, List.forall_mem_cons, List.forall_mem_append,
      List.forall_mem_singleton, ihtarget, ihkey]
    omega
  | literal token value denotes => exact List.forall_mem_singleton
  | group inner ih =>
    rw [openAt, nesting, List.forall_mem_cons, List.forall_mem_append, List.forall_mem_singleton,
      ih]
    omega
  | lookup name => simp [openAt, nesting]

/-- A derivation keeps both limits iff its tree is no higher and no token has more open. -/
theorem fits_iff {level : Nat} (limit : Nat) (phrase : Phrase level) :
    Fits limit [] phrase ↔
      phrase.expr.height ≤ limit ∧ ∀ count ∈ phrase.openAt 0, count ≤ limit := by
  rw [Fits, nesting_nil, forall_openAt_le_iff]

end Phrase

/-- A text that compiles is split into tokens that derive the compiled tree. -/
theorem exists_tokens_of_compile {text : String} {expr : Expr} (h : compile text = .ok expr) :
    ∃ tokens, tokenize text.toList = .ok tokens ∧ Derives (tokens.map TokenAt.token) expr := by
  obtain ⟨tokens, htokens, -⟩ := bind_eq_ok_iff.mp h
  exact ⟨tokens, htokens, derives_of_compile htokens h⟩

/-- What a text compiles to is decided by whether a derivation of its tokens keeps the limits. -/
theorem compile_of_derivation {text : String} {tokens : List TokenAt} {phrase : Phrase 0}
    (htokens : tokenize text.toList = .ok tokens)
    (hphrase : phrase.tokens = tokens.map TokenAt.token) :
    (Fits nestingLimit [] phrase → compile text = .ok phrase.expr) ∧
      (¬Fits nestingLimit [] phrase → ∃ position, compile text = .error (.tooDeep position)) := by
  rw [compile_eq_parse htokens]
  constructor
  · intro hfit
    exact parse_eq_ok_of_fits nestingLimit_pos hfit hphrase.symm _
  · intro hunfit
    exact parse_eq_tooDeep_of_not_fits nestingLimit_pos hunfit hphrase.symm _

/-- No compiled tree is higher than the limit. -/
theorem height_le_of_compile {text : String} {expr : Expr} (h : compile text = .ok expr) :
    expr.height ≤ nestingLimit := by
  obtain ⟨tokens, htokens, phrase, hphrase, rfl⟩ := exists_tokens_of_compile h
  by_cases hfit : Fits nestingLimit [] phrase
  · exact hfit.1
  · obtain ⟨position, hdeep⟩ := (compile_of_derivation htokens hphrase).2 hfit
    rw [h] at hdeep
    cases hdeep

/-- A text whose tokens have a derivation compiles to the tree of the derivation iff the tree is at
most 128 high and at no token more than 128 groups, index brackets and unary operators are open.
Otherwise it is too deep. So no compiled tree is higher than 128. -/
theorem compile_iff_within_limits (text : String) :
    (∀ (tokens : List TokenAt) (phrase : Phrase 0), tokenize text.toList = .ok tokens →
      phrase.tokens = tokens.map TokenAt.token →
      (compile text = .ok phrase.expr ↔
        phrase.expr.height ≤ 128 ∧ ∀ count ∈ phrase.openAt 0, count ≤ 128) ∧
      (compile text = .ok phrase.expr ∨
        ∃ position, compile text = .error (.tooDeep position))) ∧
      ∀ expr, compile text = .ok expr → expr.height ≤ 128 := by
  refine ⟨fun tokens phrase htokens hphrase ↦ ?_, fun expr h ↦ height_le_of_compile h⟩
  obtain ⟨hfits, hunfits⟩ := compile_of_derivation htokens hphrase
  have hlimit := phrase.fits_iff nestingLimit
  by_cases hfit : Fits nestingLimit [] phrase
  · have hcompile := hfits hfit
    exact ⟨⟨fun _ ↦ hlimit.mp hfit, fun _ ↦ hcompile⟩, .inl hcompile⟩
  · obtain ⟨position, hdeep⟩ := hunfits hfit
    refine ⟨⟨fun hcompile ↦ ?_, fun h ↦ absurd (hlimit.mpr h) hfit⟩, .inr ⟨position, hdeep⟩⟩
    rw [hdeep] at hcompile
    cases hcompile

/-- A primary phrase as a phrase of the loosest level. -/
def Phrase.loosest (phrase : Phrase 8) : Phrase 0 :=
  phrase.tighter.tighter.tighter.tighter.tighter.tighter.tighter.tighter

/-- The literal one in as many groups. -/
def groups : Nat → Phrase 0
  | 0 => (Phrase.literal (.int 1) (.int 1) (.int 1)).loosest
  | count + 1 => (Phrase.group (groups count)).loosest

/-- The text of the groups. -/
def groupsText : Nat → List Char
  | 0 => ['1']
  | count + 1 => '(' :: (groupsText count ++ [')'])

theorem expr_groups (count : Nat) : (groups count).expr = .literal (.int 1) := by
  induction count with
  | zero => rfl
  | succ count ih => exact ih

theorem nesting_groups (count : Nat) : (groups count).nesting = count := by
  induction count with
  | zero => rfl
  | succ count ih => exact congrArg (· + 1) ih

theorem lexes_groupsText (count : Nat) {rest : List Char} {tokens : List Token}
    (hrest : ∀ d ∈ rest.head?, d.isDigit = false ∧ d ≠ '.') (h : Lexes rest tokens) :
    Lexes (groupsText count ++ rest) ((groups count).tokens ++ tokens) := by
  induction count generalizing rest tokens with
  | zero =>
    have hdigits : ∀ d ∈ ['1'], d.isDigit = true := by
      simp
    exact .digits hdigits hrest rfl h
  | succ count ih =>
    have hclose : Lexes (')' :: rest) (.closeParen :: tokens) := .symbol rfl (fun _ ↦ rfl) h
    have hinner := ih (by simp) hclose
    have hopen : Lexes ('(' :: (groupsText count ++ ')' :: rest))
        (.openParen :: ((groups count).tokens ++ .closeParen :: tokens)) :=
      .symbol rfl (fun _ ↦ rfl) hinner
    have htext : groupsText (count + 1) ++ rest = '(' :: (groupsText count ++ ')' :: rest) := by
      simp [groupsText]
    have htokens : (groups (count + 1)).tokens ++ tokens =
        .openParen :: ((groups count).tokens ++ .closeParen :: tokens) := by
      show .openParen :: ((groups count).tokens ++ [.closeParen]) ++ tokens = _
      simp
    rw [htext, htokens]
    exact hopen

/-- The text of groups is split into the tokens of the groups. -/
theorem exists_tokenize_groupsText (count : Nat) :
    ∃ tokens, tokenize (String.ofList (groupsText count)).toList = .ok tokens ∧
      (groups count).tokens = tokens.map TokenAt.token := by
  have hlexes : Lexes (groupsText count ++ []) ((groups count).tokens ++ []) :=
    lexes_groupsText count (by simp) .nil
  rw [List.append_nil, List.append_nil] at hlexes
  obtain ⟨tokens, htokens, hmap⟩ := hlexes.exists_tokenize
  rw [String.toList_ofList]
  exact ⟨tokens, htokens, hmap.symm⟩

theorem compile_iff_within_limits_groups :
    compile (String.ofList (groupsText 128)) = .ok (.literal (.int 1)) ∧
      ∃ position, compile (String.ofList (groupsText 129)) = .error (.tooDeep position) := by
  obtain ⟨tokens, htokens, hgroups⟩ := exists_tokenize_groupsText 128
  obtain ⟨others, hothers, hmore⟩ := exists_tokenize_groupsText 129
  have hfit := ((compile_iff_within_limits _).1 tokens (groups 128) htokens hgroups).1
  obtain ⟨hiff, houtcome⟩ := (compile_iff_within_limits _).1 others (groups 129) hothers hmore
  rw [Phrase.forall_openAt_le_iff, expr_groups, nesting_groups] at hfit hiff
  rw [expr_groups] at houtcome
  refine ⟨hfit.mpr ⟨by decide, by decide⟩, houtcome.resolve_left fun hcompile ↦ ?_⟩
  exact absurd (hiff.mp hcompile).2 (by decide)

end FlowGate.Expr

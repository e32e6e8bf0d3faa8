import FlowGate.Proofs.CompileGrammar
import FlowGate.Proofs.LexingLocality

/-!
# Syntax errors point at the offending token

Tokens are `Viable` if they go on to a sentence of the grammar. What the parser has read is viable,
because whatever is open can be closed (`Opened.exists_completion`, `Read.viable`), and tokens that
it refuses for their order are not, since it reads every sentence to its end unless that is too deep
(`not_viable_of_run`). So the token at which it stops is the first one that is out of place
(`syntax_fault_at_offending_token`).

Limits on depth play no part here: `Viable` is about the grammar alone.
-/

set_option autoImplicit false

namespace FlowGate.Expr

/-- Some tokens go on from these to a sentence of the grammar. -/
def Viable (tokens : List Token) : Prop :=
  ∃ more expr, Derives (tokens ++ more) expr

theorem Viable.of_append {front back : List Token} (h : Viable (front ++ back)) : Viable front := by
  obtain ⟨more, expr, hderives⟩ := h
  exact ⟨back ++ more, expr, by rwa [← List.append_assoc]⟩

/-- What is open can be closed behind a phrase that may stand there. -/
theorem Opened.exists_completion {frames : List Frame} {tokens : List Token}
    (h : Opened frames tokens) {level : Nat} (phrase : Phrase level)
    (hadmits : Admits level frames) :
    ∃ (more : List Token) (whole : Phrase 0), whole.tokens = tokens ++ phrase.tokens ++ more := by
  induction h generalizing level with
  | nil =>
    obtain ⟨whole, htokens, -⟩ := phrase.exists_looser (Nat.zero_le level)
    exact ⟨[], whole, by rw [htokens, List.nil_append, List.append_nil]⟩
  | binary opened admits left operand joins ih =>
    obtain ⟨-, rfl⟩ := (joins_iff _ _ _).mp joins
    obtain ⟨right, hright, -⟩ := phrase.exists_looser hadmits
    obtain ⟨more, whole, hwhole⟩ := ih (left.chain _ _ joins right) admits
    refine ⟨more, whole, ?_⟩
    show whole.tokens = _
    rw [hwhole]
    show _ ++ (left.tokens ++ _ :: right.tokens) ++ more = _
    rw [hright]
    simp
  | unary opened prefixes ih =>
    obtain ⟨operand, hoperand, -⟩ := phrase.exists_looser hadmits
    obtain ⟨more, whole, hwhole⟩ :=
      ih (.unary _ _ prefixes operand) (admits_of_le (Nat.le_refl 6) _)
    refine ⟨more, whole, ?_⟩
    rw [hwhole]
    show _ ++ (_ :: operand.tokens) ++ more = _
    rw [hoperand]
    simp
  | group opened ih =>
    obtain ⟨inner, hinner, -⟩ := phrase.exists_looser (Nat.zero_le level)
    obtain ⟨more, whole, hwhole⟩ := ih (.group inner) (admits_of_le (by omega) _)
    refine ⟨.closeParen :: more, whole, ?_⟩
    rw [hwhole]
    show _ ++ (.openParen :: (inner.tokens ++ [.closeParen])) ++ more = _
    rw [hinner]
    simp
  | index opened target operand ih =>
    obtain ⟨key, hkey, -⟩ := phrase.exists_looser (Nat.zero_le level)
    obtain ⟨more, whole, hwhole⟩ := ih (.index target key) (admits_of_le (by omega) _)
    refine ⟨.closeBracket :: more, whole, ?_⟩
    rw [hwhole]
    show _ ++ (target.tokens ++ .openBracket :: (key.tokens ++ [.closeBracket])) ++ more = _
    rw [hkey]
    simp

/-- An indexed or primary phrase on top of what is open goes on to a sentence. -/
theorem Opened.viable {frames : List Frame} {tokens : List Token} (h : Opened frames tokens)
    {level : Nat} (phrase : Phrase level) (hlevel : 6 ≤ level) :
    Viable (tokens ++ phrase.tokens) := by
  obtain ⟨more, whole, hwhole⟩ := h.exists_completion phrase (admits_of_le hlevel frames)
  exact ⟨more, whole.expr, whole, hwhole, rfl⟩

/-- What the parser has read goes on to a sentence, unless a name stands at its end. -/
theorem Read.viable {state : State} {tokens : List Token} (h : Read state tokens)
    (hcall : ∀ function position, state.expected ≠ .callOpen function position) :
    Viable tokens := by
  cases h with
  | operand opened =>
    exact (opened.viable (.literal .nullWord .undefined .nullWord) (by omega)).of_append
  | continuation opened phrase operand => exact opened.viable phrase (by omega)
  | callOpen opened => exact absurd rfl (hcall _ _)
  | @callArgument frames front position opened =>
    have hcalled := opened.viable (.lookup "") (by omega)
    have hsplit : front ++ [.name "lookup", .openParen] ++ [.string "", .closeParen] =
        front ++ (Phrase.lookup "").tokens := List.append_assoc _ _ _
    rw [← hsplit] at hcalled
    exact hcalled.of_append
  | @callClose frames front name opened =>
    have hcalled := opened.viable (.lookup name) (by omega)
    have hsplit : front ++ [.name "lookup", .openParen, .string name] ++ [.closeParen] =
        front ++ (Phrase.lookup name).tokens := List.append_assoc _ _ _
    rw [← hsplit] at hcalled
    exact hcalled.of_append

/-- A look-up that waits for its argument is the last that was read. -/
theorem Read.lookup_suffix {state : State} {tokens : List Token} {position : Nat}
    (h : Read state tokens) (hexpected : state.expected = .callArgument position) :
    [.name "lookup", .openParen] <:+ tokens := by
  cases h with
  | callArgument opened => exact List.suffix_append _ _
  | operand => cases hexpected
  | continuation => cases hexpected
  | callOpen => cases hexpected
  | callClose => cases hexpected

/-- Tokens that the parser refuses for their order do not go on to a sentence. -/
theorem not_viable_of_run {input : List TokenAt} {fault : SyntaxFault} {position : Nat}
    (h : input.foldlM (step nestingLimit) start = .error (.syntactic fault position)) :
    ¬Viable (input.map TokenAt.token) := by
  rintro ⟨more, expr, phrase, hphrase, -⟩
  have hinput : (input ++ more.map (TokenAt.mk · 0)).map TokenAt.token = phrase.tokens := by
    rw [List.map_append, List.map_map, hphrase]
    exact congrArg _ (List.map_id _)
  have hsettles := run_start_settles nestingLimit_pos hinput
  rw [List.foldlM_append, h, error_bind] at hsettles
  cases hsettles

section Faults

variable {limit : Nat} {state after : State} {next : TokenAt} {fault : SyntaxFault}
  {position stop : Nat}

theorem grow_ne_syntactic {expr : Expr} {height place : Nat} :
    grow limit expr height place ≠ .error (.syntactic fault position) := by
  unfold grow
  split <;> nofun

theorem enter_ne_syntactic {frame : Frame} {frames : List Frame} {place : Nat} :
    enter limit frame frames place ≠ .error (.syntactic fault position) := by
  unfold enter
  split <;> nofun

theorem reduce_ne_syntactic {bound : Nat} {done : Operand} {frames : List Frame} :
    reduce limit bound done frames ≠ .error (.syntactic fault position) := by
  fun_induction reduce limit bound done frames with
  | case1 done op left place frames hle ih =>
    intro h
    rcases bind_eq_error_iff.mp h with hgrow | ⟨node, -, hrest⟩
    · exact grow_ne_syntactic hgrow
    · exact ih node hrest
  | case2 =>
    intro h
    cases h
  | case3 done op place frames ih =>
    intro h
    rcases bind_eq_error_iff.mp h with hgrow | ⟨node, -, hrest⟩
    · exact grow_ne_syntactic hgrow
    · exact ih node hrest
  | case4 =>
    intro h
    cases h

/-- The order of tokens is at fault at the token that is read. -/
theorem step_syntactic (h : step limit state next = .error (.syntactic fault position))
    (hname : ∀ name, fault ≠ .unknownName name) :
    position = next.position ∧
      ∀ function place, state.expected ≠ .callOpen function place := by
  unfold step at h
  split at h
  · rename_i hexpected
    rw [hexpected]
    refine ⟨?_, nofun⟩
    unfold stepOperand at h
    split at h
    · cases h
    · exact absurd h enter_ne_syntactic
    · exact absurd h enter_ne_syntactic
    · cases h
    · cases h
      rfl
  · rename_i done hexpected
    rw [hexpected]
    refine ⟨?_, nofun⟩
    unfold stepContinuation at h
    split at h
    · exact absurd h enter_ne_syntactic
    · rcases bind_eq_error_iff.mp h with hreduce | ⟨result, -, hrest⟩
      · exact absurd hreduce reduce_ne_syntactic
      · cases hrest
    · rcases bind_eq_error_iff.mp h with hreduce | ⟨⟨inner, outer⟩, -, hrest⟩
      · exact absurd hreduce reduce_ne_syntactic
      · dsimp only at hrest
        split at hrest
        · cases hrest
        · rcases bind_eq_error_iff.mp hrest with hgrow | ⟨node, -, hok⟩
          · exact absurd hgrow grow_ne_syntactic
          · cases hok
        · cases hrest
          rfl
        · cases hrest
          rfl
  · split at h
    · split at h <;> cases h
    · cases h
      exact absurd rfl (hname _)
  · rename_i hexpected
    rw [hexpected]
    split at h <;> cases h
    exact ⟨rfl, nofun⟩
  · rename_i hexpected
    rw [hexpected]
    split at h <;> cases h
    exact ⟨rfl, nofun⟩

/-- The order of tokens is at fault at the end of the text, or at the parenthesis of a look-up that
has no argument. -/
theorem finish_syntactic (h : finish limit state stop = .error (.syntactic fault position))
    (hname : ∀ name, fault ≠ .unknownName name) :
    (∀ function place, state.expected ≠ .callOpen function place) ∧
      (state.expected = .callArgument position ∧ fault = .expectedAttribute .openParen ∨
        (∀ place, state.expected ≠ .callArgument place) ∧ position = stop ∧
          ∃ before, fault.message = before ++ ", found end of input") := by
  unfold finish at h
  split at h
  · rename_i hexpected
    rw [hexpected]
    cases h
    exact ⟨nofun, .inr ⟨nofun, rfl, _, rfl⟩⟩
  · rename_i done hexpected
    rw [hexpected]
    rcases bind_eq_error_iff.mp h with hreduce | ⟨⟨inner, outer⟩, -, hrest⟩
    · exact absurd hreduce reduce_ne_syntactic
    · dsimp only at hrest
      split at hrest
      · cases hrest
      · cases hrest
        exact ⟨nofun, .inr ⟨nofun, rfl, _, rfl⟩⟩
  · cases h
    exact absurd rfl (hname _)
  · rename_i hexpected
    rw [hexpected]
    cases h
    exact ⟨nofun, .inl ⟨rfl, rfl⟩⟩
  · rename_i hexpected
    rw [hexpected]
    cases h
    exact ⟨nofun, .inr ⟨nofun, rfl, _, rfl⟩⟩

/-- A name is read where an operand may start only. -/
theorem step_name {text : String} {place : Nat}
    (h : step limit state ⟨.name text, place⟩ = .ok after) :
    after.expected = .callOpen text place := by
  unfold step at h
  split at h
  · cases h
    rfl
  · rename_i done hexpected
    unfold stepContinuation at h
    obtain ⟨⟨inner, outer⟩, -, hrest⟩ := bind_eq_ok_iff.mp h
    cases outer with
    | nil => cases hrest
    | cons frame rest => cases frame <;> cases hrest
  · cases h
  · cases h
  · cases h

/-- The parenthesis of a look-up is read as such. -/
theorem step_callOpen {function : String} {place : Nat}
    (hexpected : state.expected = .callOpen function place)
    (h : step limit state next = .ok after) : after.expected = .callArgument next.position := by
  unfold step at h
  rw [hexpected] at h
  dsimp only at h
  split at h
  · split at h <;> cases h
    rfl
  · cases h

end Faults

/-- The tokens stop right after the parenthesis of a look-up. -/
def CutOff (tokens : List Token) : Prop :=
  Viable tokens ∧ [.name "lookup", .openParen] <:+ tokens

/-- Tokens that stop after the parenthesis of a look-up leave the parser there. -/
theorem exists_of_lookup_suffix {tokens : List TokenAt} {state : State}
    (h : [.name "lookup", .openParen] <:+ tokens.map TokenAt.token) {limit : Nat}
    (hrun : tokens.foldlM (step limit) start = .ok state) :
    ∃ front last, tokens = front ++ [last] ∧ state.expected = .callArgument last.position := by
  obtain ⟨before, hbefore⟩ := h
  obtain ⟨front, back, rfl, -, hback⟩ := List.map_eq_append_iff.mp hbefore.symm
  obtain ⟨⟨_, place⟩, others, rfl, rfl, hothers⟩ := List.map_eq_cons_iff.mp hback
  obtain ⟨last, rfl, hlast⟩ := List.map_eq_singleton_iff.mp hothers
  rw [List.foldlM_append] at hrun
  obtain ⟨middle, -, hrun⟩ := bind_eq_ok_iff.mp hrun
  obtain ⟨named, hnamed, hrun⟩ := bind_eq_ok_iff.mp hrun
  obtain ⟨opened, hopened, hend⟩ := bind_eq_ok_iff.mp hrun
  cases hend
  refine ⟨front ++ [⟨.name "lookup", place⟩], last, by simp, ?_⟩
  exact step_callOpen (step_name hnamed) hopened

/-- Which tokens start before one of them, and which do not start after it. -/
theorem filter_position {before after : List TokenAt} {next : TokenAt}
    (h : (before ++ next :: after).Pairwise (·.position < ·.position)) :
    (before ++ next :: after).filter (·.position < next.position) = before ∧
      (before ++ next :: after).filter (·.position ≤ next.position) = before ++ [next] := by
  obtain ⟨-, hnext, hcross⟩ := List.pairwise_append.mp h
  obtain ⟨hafter, -⟩ := List.pairwise_cons.mp hnext
  have hbefore : ∀ token ∈ before, token.position < next.position :=
    fun token htoken ↦ hcross token htoken next List.mem_cons_self
  constructor
  · have hlater : ∀ token ∈ after, ¬decide (token.position < next.position) = true := by
      intro token htoken
      simpa using (hafter token htoken).le
    rw [List.filter_append, List.filter_eq_self.mpr (by simpa using hbefore),
      List.filter_cons_of_neg (by simp), List.filter_eq_nil_iff.mpr hlater, List.append_nil]
  · have hlater : ∀ token ∈ after, ¬decide (token.position ≤ next.position) = true := by
      intro token htoken
      simpa using hafter token htoken
    have hupto : ∀ token ∈ before, decide (token.position ≤ next.position) = true := by
      intro token htoken
      simpa using (hbefore token htoken).le
    rw [List.filter_append, List.filter_eq_self.mpr hupto, List.filter_cons_of_pos (by simp),
      List.filter_eq_nil_iff.mpr hlater]

/-- Where a text is at fault because of the order of its tokens, and no unknown name is the cause.
The tokens that start before the place go on to a sentence of the grammar. With the token that
starts there, if there is one, they do not. If all of the tokens go on to a sentence, then the place
is the end of the text and the message says so.

A text that stops right after the parenthesis of a look-up is the exception: the fault is reported
at the parenthesis, as if it stood in the place of the argument. -/
theorem syntax_fault_at_offending_token (text : String) (tokens : List TokenAt)
    (fault : SyntaxFault) (position : Nat) (htokens : tokenize text.toList = .ok tokens)
    (hfault : compile text = .error (.syntactic fault position))
    (hname : ∀ name, fault ≠ .unknownName name) :
    Viable ((tokens.filter (·.position < position)).map TokenAt.token) ∧
      (¬CutOff (tokens.map TokenAt.token) →
        (∀ token ∈ tokens, token.position = position →
          ¬Viable ((tokens.filter (·.position ≤ position)).map TokenAt.token)) ∧
        (Viable (tokens.map TokenAt.token) → position = text.utf8ByteSize ∧
          ∃ before, fault.message = before ++ ", found end of input")) ∧
      (CutOff (tokens.map TokenAt.token) → fault = .expectedAttribute .openParen ∧
        ∃ front last, tokens = front ++ [last] ∧ position = last.position) := by
  have hpairwise := (places_of_tokenizeFrom htokens).1
  rw [compile_eq_parse htokens, byteLength_toList] at hfault
  rcases bind_eq_error_iff.mp hfault with hrun | ⟨state, hrun, hfinish⟩
  · obtain ⟨before, next, after, state, rfl, hbefore, hstep⟩ := exists_of_foldlM_eq_error hrun
    obtain ⟨rfl, hcall⟩ := step_syntactic hstep hname
    obtain ⟨hlt, hle⟩ := filter_position hpairwise
    have hunviable := not_viable_of_run hrun
    have hupto : (before ++ [next]).foldlM (step nestingLimit) start =
        .error (.syntactic fault next.position) := by
      rw [List.foldlM_append, hbefore, ok_bind, List.foldlM_cons, hstep, error_bind]
    rw [hlt, hle]
    refine ⟨(foldlM_step_read (.operand .nil) hbefore).viable hcall, fun _ ↦
      ⟨fun _ _ _ ↦ not_viable_of_run hupto, fun h ↦ absurd h hunviable⟩,
      fun h ↦ absurd h.1 hunviable⟩
  · obtain ⟨hcall, hend⟩ := finish_syntactic hfinish hname
    have hread := foldlM_step_read (.operand .nil) hrun
    have hviable : Viable (tokens.map TokenAt.token) := hread.viable hcall
    rcases hend with ⟨hexpected, rfl⟩ | ⟨hargument, rfl, hmessage⟩
    · have hsuffix : [.name "lookup", .openParen] <:+ tokens.map TokenAt.token :=
        hread.lookup_suffix hexpected
      obtain ⟨front, last, rfl, hlast⟩ := exists_of_lookup_suffix hsuffix hrun
      obtain rfl : position = last.position := by
        rw [hexpected] at hlast
        exact Expected.callArgument.inj hlast
      rw [(filter_position hpairwise).1]
      rw [List.map_append] at hviable
      exact ⟨hviable.of_append, fun h ↦ absurd ⟨by rwa [List.map_append], hsuffix⟩ h,
        fun _ ↦ ⟨rfl, front, last, rfl, rfl⟩⟩
    · have hbefore : ∀ token ∈ tokens, token.position < text.utf8ByteSize :=
        fun token htoken ↦ (isValid_of_mem_tokenize htokens htoken).2
      rw [List.filter_eq_self.mpr (by simpa using hbefore)]
      refine ⟨hviable, fun _ ↦ ⟨fun token htoken heq ↦ ?_, fun _ ↦ ⟨rfl, hmessage⟩⟩, fun h ↦ ?_⟩
      · exact absurd heq (Nat.ne_of_lt (hbefore token htoken))
      · obtain ⟨front, last, -, hexpected⟩ := exists_of_lookup_suffix h.2 hrun
        exact absurd hexpected (hargument _)

theorem syntax_fault_at_offending_token_shortTexts :
    (compile "1 )" = .error (.syntactic (.trailing .closeParen) 2) ∧ Viable [.int 1] ∧
      ¬CutOff [.int 1, .closeParen] ∧ ¬Viable [.int 1, .closeParen]) ∧
    (compile "-" = .error (.syntactic (.expectedOperand none) 1) ∧ ¬CutOff [.minus] ∧
      Viable [.minus] ∧ 1 = "-".utf8ByteSize ∧
      ∃ before, (SyntaxFault.expectedOperand none).message = before ++ ", found end of input") := by
  have hshort : ∀ tokens : List Token, (∀ token ∈ tokens, token ≠ .openParen) → ¬CutOff tokens := by
    intro tokens h hcut
    exact h _ (hcut.2.subset (by simp)) rfl
  have hclosing : tokenize "1 )".toList = .ok [⟨.int 1, 0⟩, ⟨.closeParen, 2⟩] := by
    have hone : scan '1' [' ', ')'] = .ok ⟨.int 1, ['1'], [' ', ')']⟩ := rfl
    have hclose : scan ')' [] = .ok ⟨.closeParen, [')'], []⟩ := rfl
    show tokenizeFrom 0 ['1', ' ', ')'] = _
    rw [tokenizeFrom_scan rfl hone, tokenizeFrom_blank rfl, tokenizeFrom_scan rfl hclose,
      tokenizeFrom_nil]
    rfl
  have hminus : tokenize "-".toList = .ok [⟨.minus, 0⟩] := by
    have hscan : scan '-' [] = .ok ⟨.minus, ['-'], []⟩ := rfl
    show tokenizeFrom 0 ['-'] = _
    rw [tokenizeFrom_scan rfl hscan, tokenizeFrom_nil]
    rfl
  have htrailing : compile "1 )" = .error (.syntactic (.trailing .closeParen) 2) := by
    rw [compile_eq_parse hclosing]
    rfl
  have hmissing : compile "-" = .error (.syntactic (.expectedOperand none) 1) := by
    rw [compile_eq_parse hminus]
    rfl
  obtain ⟨hbefore, hoffends, -⟩ :=
    syntax_fault_at_offending_token _ _ _ _ hclosing htrailing nofun
  obtain ⟨hall, hend, -⟩ := syntax_fault_at_offending_token _ _ _ _ hminus hmissing nofun
  have hcut := hshort [.int 1, .closeParen] (by simp)
  have hcut' := hshort [.minus] (by simp)
  exact ⟨⟨htrailing, hbefore, hcut, (hoffends hcut).1 ⟨.closeParen, 2⟩ (by simp) rfl⟩, hmissing,
    hcut', hall, (hend hcut').2 hall⟩

theorem tokenize_openLookup :
    tokenize "lookup(".toList = .ok [⟨.name "lookup", 0⟩, ⟨.openParen, 6⟩] := by
  have hword : scan 'l' "ookup(".toList = .ok ⟨.name "lookup", "lookup".toList, ['(']⟩ := rfl
  have hopen : scan '(' [] = .ok ⟨.openParen, ['('], []⟩ := rfl
  show tokenizeFrom 0 ('l' :: "ookup(".toList) = _
  rw [tokenizeFrom_scan rfl hword, tokenizeFrom_scan rfl hopen, tokenizeFrom_nil]
  rfl

/-- A look-up without an argument is reported at its parenthesis, though its tokens go on to a
sentence and the text ends only after it. -/
theorem syntax_fault_before_argument :
    tokenize "lookup(".toList = .ok [⟨.name "lookup", 0⟩, ⟨.openParen, 6⟩] ∧
      compile "lookup(" = .error (.syntactic (.expectedAttribute .openParen) 6) ∧
      Viable [.name "lookup", .openParen] ∧ (¬∃ expr, Derives [.name "lookup", .openParen] expr) ∧
      "lookup(".utf8ByteSize = 7 ∧
      (SyntaxFault.expectedAttribute .openParen).message =
        "lookup expects a string literal, found LParen" := by
  have hfault : compile "lookup(" = .error (.syntactic (.expectedAttribute .openParen) 6) := by
    rw [compile_eq_parse tokenize_openLookup]
    rfl
  have hviable : Viable [.name "lookup", .openParen] := by
    refine ⟨[.string "", .closeParen], .lookup "", ?_⟩
    obtain ⟨whole, htokens, hexpr, -⟩ := (Phrase.lookup "").exists_looser (Nat.zero_le 8)
    exact ⟨whole, htokens, hexpr⟩
  refine ⟨tokenize_openLookup, hfault, hviable, ?_, rfl, rfl⟩
  rintro ⟨expr, hderives⟩
  rcases compile_of_derives tokenize_openLookup hderives with hok | ⟨position, hdeep⟩
  · rw [hfault] at hok
    cases hok
  · rw [hfault] at hdeep
    cases hdeep

end FlowGate.Expr

import FlowGate.Expr.Parser
import FlowGate.Proofs.Grammar
import FlowGate.Proofs.Outcomes

/-!
# What the parser has read

A stack of frames stands for the tokens that opened them (`Opened`), and a state of the parser for
all the tokens that it has read (`Read`). Closing operator frames rearranges the same tokens into a
looser phrase (`reduce_sound`), each token is added to what was read (`step_read`), and so a tree
that the parser builds is derived from the tokens of its text (`derives_of_parse`).

Operators on the stack bind tighter from the bottom to the top. This is what makes a finished
operand fit the operator it is closed under.
-/

set_option autoImplicit false

namespace FlowGate.Expr

/-- Whether a phrase of a level may stand on top of the frames: it binds tighter than an operator
that waits for its right operand. -/
def Admits (level : Nat) : List Frame → Prop
  | .binary op _ _ :: _ => op.level < level
  | .unary _ _ :: _ => 6 ≤ level
  | .group :: _ => True
  | .index _ _ :: _ => True
  | [] => True

/-- Unary, indexed and primary phrases may stand anywhere. -/
theorem admits_of_le {level : Nat} (h : 6 ≤ level) (frames : List Frame) : Admits level frames := by
  match frames with
  | .binary op _ _ :: _ => exact Nat.lt_of_lt_of_le op.level_lt h
  | .unary _ _ :: _ => exact h
  | .group :: _ => trivial
  | .index _ _ :: _ => trivial
  | [] => trivial

/-- The frames are opened by the tokens: by an operator or bracket each, after the phrase of its
left operand or target. -/
inductive Opened : List Frame → List Token → Prop where
  | nil : Opened [] []
  | binary {frames : List Frame} {tokens : List Token} {level position : Nat} {token : Token}
      {op : BinaryOp} {left : Operand} (opened : Opened frames tokens)
      (admits : Admits level frames) (phrase : Phrase level) (operand : phrase.expr = left.expr)
      (joins : Joins level token op) :
      Opened (.binary op left position :: frames) (tokens ++ phrase.tokens ++ [token])
  | unary {frames : List Frame} {tokens : List Token} {position : Nat} {token : Token}
      {op : UnaryOp} (opened : Opened frames tokens) (prefixes : Prefixes token op) :
      Opened (.unary op position :: frames) (tokens ++ [token])
  | group {frames : List Frame} {tokens : List Token} (opened : Opened frames tokens) :
      Opened (.group :: frames) (tokens ++ [.openParen])
  | index {frames : List Frame} {tokens : List Token} {position : Nat} {target : Operand}
      (opened : Opened frames tokens) (phrase : Phrase 7) (operand : phrase.expr = target.expr) :
      Opened (.index target position :: frames) (tokens ++ phrase.tokens ++ [.openBracket])

/-- The parser is in the state after the tokens. -/
inductive Read : State → List Token → Prop where
  | operand {frames : List Frame} {tokens : List Token} (opened : Opened frames tokens) :
      Read ⟨frames, .operand⟩ tokens
  | continuation {frames : List Frame} {tokens : List Token} {done : Operand}
      (opened : Opened frames tokens) (phrase : Phrase 7) (operand : phrase.expr = done.expr) :
      Read ⟨frames, .continuation done⟩ (tokens ++ phrase.tokens)
  | callOpen {frames : List Frame} {tokens : List Token} {function : String} {position : Nat}
      (opened : Opened frames tokens) :
      Read ⟨frames, .callOpen function position⟩ (tokens ++ [.name function])
  | callArgument {frames : List Frame} {tokens : List Token} {position : Nat}
      (opened : Opened frames tokens) :
      Read ⟨frames, .callArgument position⟩ (tokens ++ [.name "lookup", .openParen])
  | callClose {frames : List Frame} {tokens : List Token} {name : String}
      (opened : Opened frames tokens) :
      Read ⟨frames, .callClose name⟩ (tokens ++ [.name "lookup", .openParen, .string name])

theorem Read.of_eq {state : State} {tokens other : List Token} (h : Read state tokens)
    (heq : tokens = other) : Read state other :=
  heq ▸ h

/-! ### Closing frames -/

theorem grow_eq_ok {limit height position : Nat} {expr : Expr} {node : Operand}
    (h : grow limit expr height position = .ok node) : node = ⟨expr, height + 1⟩ := by
  unfold grow at h
  by_cases hlimit : height < limit
  · rw [if_pos hlimit] at h
    exact (Except.ok.inj h).symm
  · rw [if_neg hlimit] at h
    exact nomatch h

/-- Closing the operators on top that bind at least as tightly as a level makes a phrase of that
level out of the same tokens. -/
theorem reduce_sound {limit bound level : Nat} {done inner : Operand} {frames outer : List Frame}
    {tokens : List Token} (h : reduce limit bound done frames = .ok (inner, outer))
    (hopened : Opened frames tokens) (phrase : Phrase level) (hexpr : phrase.expr = done.expr)
    (hadmits : Admits level frames) (hbound : bound ≤ level) (hbinary : bound ≤ 6) :
    ∃ (rest : List Token) (result : Phrase bound), Opened outer rest ∧ Admits bound outer ∧
      result.expr = inner.expr ∧ rest ++ result.tokens = tokens ++ phrase.tokens := by
  fun_induction reduce limit bound done frames generalizing tokens level with
  | case1 done op left position frames hle ih =>
    obtain ⟨node, hnode, h⟩ := bind_eq_ok_iff.mp h
    obtain rfl := grow_eq_ok hnode
    cases hopened with
    | binary hopened hadmits' leftPhrase hleft joins =>
      obtain ⟨-, rfl⟩ := (joins_iff _ _ _).mp joins
      obtain ⟨right, hright, hrightExpr, -⟩ := phrase.exists_looser hadmits
      obtain ⟨rest, result, hrest, houter, hresult, htokens⟩ := ih _ h hopened
        (leftPhrase.chain _ op joins right) (by rw [Phrase.expr, hleft, hrightExpr, hexpr])
        hadmits' hle
      refine ⟨rest, result, hrest, houter, hresult, ?_⟩
      rw [htokens, Phrase.tokens, hright]
      simp
  | case2 done op left position frames hlt =>
    cases h
    obtain ⟨result, htokens, hresult, -⟩ := phrase.exists_looser hbound
    exact ⟨tokens, result, hopened, Nat.lt_of_not_le hlt, hresult.trans hexpr, by rw [htokens]⟩
  | case3 done op position frames ih =>
    obtain ⟨node, hnode, h⟩ := bind_eq_ok_iff.mp h
    obtain rfl := grow_eq_ok hnode
    cases hopened with
    | unary hopened prefixes =>
      obtain ⟨operand, hoperand, hoperandExpr, -⟩ := phrase.exists_looser hadmits
      obtain ⟨rest, result, hrest, houter, hresult, htokens⟩ := ih _ h hopened
        (.unary _ op prefixes operand) (by rw [Phrase.expr, hoperandExpr, hexpr])
        (admits_of_le (Nat.le_refl 6) _) hbinary
      refine ⟨rest, result, hrest, houter, hresult, ?_⟩
      rw [htokens, Phrase.tokens, hoperand]
      simp
  | case4 done frames hnoBinary hnoUnary =>
    have houter : Admits bound frames := by
      match frames with
      | .binary op left position :: rest => exact absurd rfl (hnoBinary op left position rest)
      | .unary op position :: rest => exact absurd rfl (hnoUnary op position rest)
      | .group :: _ => trivial
      | .index _ _ :: _ => trivial
      | [] => trivial
    cases h
    obtain ⟨result, htokens, hresult, -⟩ := phrase.exists_looser hbound
    exact ⟨tokens, result, hopened, houter, hresult.trans hexpr, by rw [htokens]⟩

/-! ### Reading tokens -/

theorem enter_eq_ok {limit position : Nat} {frame : Frame} {frames : List Frame} {state : State}
    (h : enter limit frame frames position = .ok state) :
    state = ⟨frame :: frames, .operand⟩ := by
  unfold enter at h
  by_cases hroom : nesting frames < limit
  · rw [if_pos hroom] at h
    exact (Except.ok.inj h).symm
  · rw [if_neg hroom] at h
    exact nomatch h

/-- A token where an operand may start is the operand or opens something. -/
theorem stepOperand_read {limit : Nat} {frames : List Frame} {tokens : List Token} {next : TokenAt}
    {state : State} (hopened : Opened frames tokens)
    (h : stepOperand limit frames next = .ok state) : Read state (tokens ++ [next.token]) := by
  unfold stepOperand at h
  split at h
  · rename_i value hliteral
    cases h
    exact .continuation hopened (.tighter (.literal _ value ((denotes_iff _ _).mpr hliteral))) rfl
  · rename_i op _ hunary
    obtain rfl := enter_eq_ok h
    exact .operand (.unary hopened ((prefixes_iff _ _).mpr hunary))
  · rename_i htoken
    obtain rfl := enter_eq_ok h
    rw [htoken]
    exact .operand (.group hopened)
  · rename_i text _ _ htoken
    cases h
    rw [htoken]
    exact .callOpen hopened
  · cases h

/-- A token after an operand opens an index, joins the operand to the next one or closes what is
open. -/
theorem stepContinuation_read {limit : Nat} {done : Operand} {frames : List Frame}
    {tokens : List Token} {next : TokenAt} {state : State} (hopened : Opened frames tokens)
    (phrase : Phrase 7) (hexpr : phrase.expr = done.expr)
    (h : stepContinuation limit done frames next = .ok state) :
    Read state (tokens ++ phrase.tokens ++ [next.token]) := by
  have hadmits := admits_of_le (by omega : 6 ≤ 7) frames
  unfold stepContinuation at h
  split at h
  · rename_i htoken
    obtain rfl := enter_eq_ok h
    rw [htoken]
    exact .operand (.index hopened phrase hexpr)
  · rename_i op hop _
    obtain ⟨⟨left, outer⟩, hreduce, h⟩ := bind_eq_ok_iff.mp h
    cases h
    have hlevel := op.level_lt
    obtain ⟨rest, result, hrest, houter, hresult, htokens⟩ :=
      reduce_sound hreduce hopened phrase hexpr hadmits (by omega) (by omega)
    rw [← htokens]
    exact .operand (.binary hrest houter result hresult ((joins_iff _ _ _).mpr ⟨hop, rfl⟩))
  · obtain ⟨⟨inner, outer⟩, hreduce, h⟩ := bind_eq_ok_iff.mp h
    obtain ⟨rest, result, hrest, -, hresult, htokens⟩ :=
      reduce_sound hreduce hopened phrase hexpr hadmits (by omega) (by omega)
    rw [← htokens]
    dsimp only at h
    split at h
    · rename_i htoken
      cases h
      cases hrest with
      | group hopened =>
        refine (Read.continuation hopened (.tighter (.group result)) hresult).of_eq ?_
        simp [htoken, Phrase.tokens]
    · rename_i htoken
      obtain ⟨node, hnode, h⟩ := bind_eq_ok_iff.mp h
      obtain rfl := grow_eq_ok hnode
      cases h
      cases hrest with
      | index hopened target htarget =>
        refine (Read.continuation hopened (.index target result) ?_).of_eq ?_
        · rw [Phrase.expr, htarget, hresult]
        · simp [htoken, Phrase.tokens]
    · cases h
    · cases h

/-- Reading a token adds it to what was read. -/
theorem step_read {limit : Nat} {before after : State} {tokens : List Token} {next : TokenAt}
    (hread : Read before tokens) (h : step limit before next = .ok after) :
    Read after (tokens ++ [next.token]) := by
  unfold step at h
  cases hread with
  | operand hopened => exact stepOperand_read hopened h
  | continuation hopened phrase hexpr => exact stepContinuation_read hopened phrase hexpr h
  | callOpen hopened =>
    dsimp only at h
    split at h
    · rename_i htoken
      split at h
      · rename_i hname
        cases h
        refine (Read.callArgument hopened).of_eq ?_
        simp [htoken, hname, lookupName]
      · cases h
    · cases h
  | callArgument hopened =>
    dsimp only at h
    split at h
    · rename_i name htoken
      cases h
      refine (Read.callClose hopened).of_eq ?_
      simp [htoken]
    · cases h
  | @callClose _ _ name hopened =>
    dsimp only at h
    split at h
    · rename_i htoken
      cases h
      refine (Read.continuation hopened (.tighter (.lookup name)) rfl).of_eq ?_
      simp [htoken, Phrase.tokens]
    · cases h

/-- Reading tokens one after another adds all of them. -/
theorem foldlM_step_read {limit : Nat} {before after : State} {tokens : List Token}
    {input : List TokenAt} (hread : Read before tokens)
    (h : input.foldlM (step limit) before = .ok after) :
    Read after (tokens ++ input.map TokenAt.token) := by
  induction input generalizing before tokens with
  | nil =>
    cases h
    simpa using hread
  | cons next rest ih =>
    obtain ⟨between, hstep, hrest⟩ := bind_eq_ok_iff.mp h
    simpa using ih (step_read hread hstep) hrest

/-- At the end of the text everything that is open is closed. -/
theorem finish_derives {limit stop : Nat} {state : State} {tokens : List Token} {expr : Expr}
    (hread : Read state tokens) (h : finish limit state stop = .ok expr) :
    Derives tokens expr := by
  unfold finish at h
  cases hread with
  | operand => cases h
  | continuation hopened phrase hexpr =>
    obtain ⟨⟨inner, outer⟩, hreduce, h⟩ := bind_eq_ok_iff.mp h
    obtain ⟨rest, result, hrest, -, hresult, htokens⟩ := reduce_sound hreduce hopened phrase
      hexpr (admits_of_le (by omega) _) (by omega) (by omega)
    dsimp only at h
    split at h
    · cases h
      cases hrest
      exact ⟨result, htokens, hresult⟩
    · cases h
  | callOpen => cases h
  | callArgument => cases h
  | callClose => cases h

/-- A tree that the parser builds is derived from all of the tokens. -/
theorem derives_of_parse {limit stop : Nat} {tokens : List TokenAt} {expr : Expr}
    (h : parse limit tokens stop = .ok expr) : Derives (tokens.map TokenAt.token) expr := by
  obtain ⟨state, hrun, hfinish⟩ := bind_eq_ok_iff.mp h
  exact finish_derives (foldlM_step_read (.operand .nil) hrun) hfinish

end FlowGate.Expr

import FlowGate.Proofs.ParserSoundness

/-!
# What the parser makes of a phrase

A phrase fits on top of a stack if its tree keeps the limit on heights and its groups, brackets and
unary operators, together with those open below it, keep the limit on nesting (`Fits`). Reading the
tokens of a phrase either goes too deep or leaves the operators of the phrase on the stack, where
closing them gives the operand that the phrase stands for (`Settles`). `run_settles` shows this for
every phrase, one constructor at a time, and it decides the outcome exactly: the tokens of a phrase
that fits are parsed to its tree, and those of a phrase that does not are too deep
(`parse_eq_ok_of_fits`, `parse_eq_tooDeep_of_not_fits`). Since the outcome depends on the tokens
alone and some limit fits any two phrases, tokens derive at most one tree
(`Phrase.expr_eq_of_tokens_eq`).
-/

set_option autoImplicit false

namespace FlowGate.Expr

/-- A phrase keeps both limits on top of the frames. -/
def Fits (limit : Nat) (frames : List Frame) {level : Nat} (phrase : Phrase level) : Prop :=
  phrase.expr.height ≤ limit ∧ nesting frames + phrase.nesting ≤ limit

/-- The operand that a phrase stands for. -/
def Phrase.operand {level : Nat} (phrase : Phrase level) : Operand :=
  ⟨phrase.expr, phrase.expr.height⟩

/-- Closing what a phrase left on the stack gives its operand, or is too deep if the phrase does not
fit. -/
structure ClosesTo (limit : Nat) (frames : List Frame) {level : Nat} (phrase : Phrase level)
    (bound : Nat) (result : Except CompileError (Operand × List Frame)) : Prop where
  fit : Fits limit frames phrase → result = reduce limit bound phrase.operand frames
  unfit : ¬Fits limit frames phrase → ∃ position, result = .error (.tooDeep position)

/-- The outcome of reading a phrase on top of the frames. An indexed or primary phrase leaves
nothing on the stack. -/
inductive Settles (limit : Nat) (frames : List Frame) {level : Nat} (phrase : Phrase level) :
    Except CompileError State → Prop where
  | tooDeep {position : Nat} (unfit : ¬Fits limit frames phrase) :
      Settles limit frames phrase (.error (.tooDeep position))
  | pending {done : Operand} {stack : List Frame}
      (closes : ∀ bound ≤ level, ClosesTo limit frames phrase bound (reduce limit bound done stack))
      (bare : 7 ≤ level → Fits limit frames phrase ∧ done = phrase.operand ∧ stack = frames) :
      Settles limit frames phrase (.ok ⟨stack, .continuation done⟩)

/-! ### Frames -/

@[simp]
theorem nesting_nil : nesting [] = 0 :=
  rfl

@[simp]
theorem nesting_binary (op : BinaryOp) (left : Operand) (position : Nat) (frames : List Frame) :
    nesting (.binary op left position :: frames) = nesting frames :=
  List.countP_cons_of_neg (by simp [Frame.nests])

theorem nesting_cons {frame : Frame} (h : frame.nests = true) (frames : List Frame) :
    nesting (frame :: frames) = nesting frames + 1 :=
  List.countP_cons_of_pos h

theorem Admits.of_tighter {level : Nat} {frames : List Frame} (h : Admits level frames) :
    Admits (level + 1) frames := by
  match frames with
  | .binary op _ _ :: _ => exact Nat.lt_succ_of_lt h
  | .unary _ _ :: _ => exact Nat.le_succ_of_le h
  | .group :: _ => trivial
  | .index _ _ :: _ => trivial
  | [] => trivial

/-- Nothing is closed below a phrase of a binary level. -/
theorem reduce_of_admits {limit level : Nat} {frames : List Frame} (h : Admits level frames)
    (hlevel : level < 6) (done : Operand) :
    reduce limit level done frames = .ok (done, frames) := by
  match frames with
  | .binary op left position :: rest => rw [reduce, if_neg (Nat.not_le_of_lt h)]
  | .unary op position :: rest => exact absurd h (Nat.not_le_of_lt hlevel)
  | .group :: _ => rfl
  | .index _ _ :: _ => rfl
  | [] => rfl

/-! ### Single tokens -/

section Steps

variable {limit : Nat} {frames : List Frame} {done : Operand} {position : Nat}

theorem step_literal {token : Token} {value : Value} (h : Denotes token value) :
    step limit ⟨frames, .operand⟩ ⟨token, position⟩ =
      .ok ⟨frames, .continuation ⟨.literal value, 1⟩⟩ := by
  cases h <;> rfl

theorem step_prefix {token : Token} {op : UnaryOp} (h : Prefixes token op) :
    step limit ⟨frames, .operand⟩ ⟨token, position⟩ =
      enter limit (.unary op position) frames position := by
  cases h <;> rfl

theorem step_openParen :
    step limit ⟨frames, .operand⟩ ⟨.openParen, position⟩ = enter limit .group frames position :=
  rfl

theorem step_openBracket :
    step limit ⟨frames, .continuation done⟩ ⟨.openBracket, position⟩ =
      enter limit (.index done position) frames position :=
  rfl

theorem step_joins {level : Nat} {token : Token} {op : BinaryOp} (h : Joins level token op) :
    step limit ⟨frames, .continuation done⟩ ⟨token, position⟩ =
      reduce limit level done frames >>= fun result ↦
        .ok ⟨.binary op result.1 position :: result.2, .operand⟩ := by
  cases h <;> rfl

theorem step_closeParen {inner : Operand} {outer : List Frame}
    (h : reduce limit 0 done frames = .ok (inner, .group :: outer)) :
    step limit ⟨frames, .continuation done⟩ ⟨.closeParen, position⟩ =
      .ok ⟨outer, .continuation inner⟩ := by
  show stepContinuation limit done frames ⟨.closeParen, position⟩ = _
  simp only [stepContinuation, Token.binaryOp?, h, ok_bind]

theorem step_closeBracket {inner target : Operand} {outer : List Frame} {opening : Nat}
    (h : reduce limit 0 done frames = .ok (inner, .index target opening :: outer)) :
    step limit ⟨frames, .continuation done⟩ ⟨.closeBracket, position⟩ =
      grow limit (.index target.expr inner.expr) (max target.height inner.height) opening >>=
        fun node ↦ .ok ⟨outer, .continuation node⟩ := by
  show stepContinuation limit done frames ⟨.closeBracket, position⟩ = _
  simp only [stepContinuation, Token.binaryOp?, h, ok_bind]

theorem foldlM_step_lookup {name : String} {input : List TokenAt}
    (h : input.map TokenAt.token = [.name "lookup", .openParen, .string name, .closeParen]) :
    input.foldlM (step limit) ⟨frames, .operand⟩ =
      .ok ⟨frames, .continuation ⟨.lookup name, 1⟩⟩ := by
  obtain ⟨⟨_, _⟩, argument, rfl, rfl, hargument⟩ := List.map_eq_cons_iff.mp h
  obtain ⟨⟨_, _⟩, string, rfl, rfl, hstring⟩ := List.map_eq_cons_iff.mp hargument
  obtain ⟨⟨_, _⟩, close, rfl, rfl, hclose⟩ := List.map_eq_cons_iff.mp hstring
  obtain ⟨⟨_, _⟩, rfl, rfl⟩ := List.map_eq_singleton_iff.mp hclose
  simp only [List.foldlM_cons, step, stepOperand, Token.literal?, Token.unaryOp?, ok_bind]
  rfl

/-- A closing token fails as closing the operators before it does. -/
theorem step_close_error {token : Token} {cause : CompileError}
    (htoken : token = .closeParen ∨ token = .closeBracket)
    (h : reduce limit 0 done frames = .error cause) :
    step limit ⟨frames, .continuation done⟩ ⟨token, position⟩ = .error cause := by
  show stepContinuation limit done frames ⟨token, position⟩ = _
  rcases htoken with rfl | rfl <;> simp only [stepContinuation, Token.binaryOp?, h, error_bind]

end Steps

/-! ### Phrases -/

section Phrases

variable {limit : Nat} {frames : List Frame} {level : Nat}

/-- A phrase that opens something fits only where nesting has room. -/
theorem Fits.room {phrase : Phrase level} (h : Fits limit frames phrase)
    (hopens : 0 < phrase.nesting) : nesting frames < limit := by
  have hnesting := h.2
  omega

theorem Settles.of_fits {phrase : Phrase level} (h : Fits limit frames phrase) :
    Settles limit frames phrase (.ok ⟨frames, .continuation phrase.operand⟩) :=
  .pending (fun _ _ ↦ ⟨fun _ ↦ rfl, fun hunfit ↦ absurd h hunfit⟩) fun _ ↦ ⟨h, rfl, rfl⟩

theorem Settles.tighter {phrase : Phrase (level + 1)} {result : Except CompileError State}
    (h : Settles limit frames phrase result) : Settles limit frames phrase.tighter result := by
  cases h with
  | tooDeep unfit => exact .tooDeep unfit
  | pending closes bare =>
    refine .pending (fun bound hbound ↦ ?_) fun hlevel ↦ bare (Nat.le_succ_of_le hlevel)
    have hcloses := closes bound (Nat.le_succ_of_le hbound)
    exact ⟨hcloses.fit, hcloses.unfit⟩

/-- A phrase over an operand in an operator frame: closing the operand and then the frame closes the
phrase. -/
theorem ClosesTo.of_frame {tight bound height : Nat} {frame : Frame} {phrase : Phrase level}
    {inner : Phrase tight} {result : Except CompileError (Operand × List Frame)}
    (hinner : ClosesTo limit (frame :: frames) inner bound result) (position : Nat)
    (hreduce : reduce limit bound inner.operand (frame :: frames) =
      grow limit phrase.expr height position >>= fun node ↦ reduce limit bound node frames)
    (hheight : phrase.expr.height = height + 1)
    (hfits : Fits limit frames phrase ↔ Fits limit (frame :: frames) inner ∧ height < limit) :
    ClosesTo limit frames phrase bound result := by
  constructor
  · intro hfit
    obtain ⟨hinnerFit, hlimit⟩ := hfits.mp hfit
    rw [hinner.fit hinnerFit, hreduce, grow, if_pos hlimit, ok_bind, Phrase.operand, hheight]
  · intro hunfit
    by_cases hinnerFit : Fits limit (frame :: frames) inner
    · have hlimit : ¬height < limit := fun h ↦ hunfit (hfits.mpr ⟨hinnerFit, h⟩)
      rw [hinner.fit hinnerFit, hreduce, grow, if_neg hlimit]
      exact ⟨position, rfl⟩
    · exact hinner.unfit hinnerFit

theorem fits_chain_iff {token : Token} {op : BinaryOp} {left : Phrase level}
    {joins : Joins level token op} {right : Phrase (level + 1)} {position : Nat}
    (hleft : Fits limit frames left) :
    Fits limit frames (.chain left token op joins right) ↔
      Fits limit (.binary op left.operand position :: frames) right ∧
        max left.expr.height right.expr.height < limit := by
  obtain ⟨-, hnesting⟩ := hleft
  rw [Fits, Fits, nesting_binary]
  show max left.expr.height right.expr.height + 1 ≤ limit ∧
    nesting frames + max left.nesting right.nesting ≤ limit ↔ _
  omega

theorem fits_unary_iff {token : Token} {op : UnaryOp} {prefixes : Prefixes token op}
    {operand : Phrase 6} {position : Nat} :
    Fits limit frames (.unary token op prefixes operand) ↔
      Fits limit (.unary op position :: frames) operand ∧ operand.expr.height < limit := by
  rw [Fits, Fits, nesting_cons rfl]
  show operand.expr.height + 1 ≤ limit ∧ nesting frames + (operand.nesting + 1) ≤ limit ↔ _
  omega

theorem fits_index_iff {target : Phrase 7} (htarget : Fits limit frames target) (key : Phrase 0)
    (position : Nat) :
    Fits limit frames (.index target key) ↔
      Fits limit (.index target.operand position :: frames) key ∧
        max target.expr.height key.expr.height < limit := by
  obtain ⟨-, hnesting⟩ := htarget
  rw [Fits, Fits, nesting_cons rfl]
  show max target.expr.height key.expr.height + 1 ≤ limit ∧
    nesting frames + max target.nesting (key.nesting + 1) ≤ limit ↔ _
  omega

theorem fits_group_iff {inner : Phrase 0} :
    Fits limit frames (.group inner) ↔ Fits limit (.group :: frames) inner := by
  rw [Fits, Fits, nesting_cons rfl]
  show inner.expr.height ≤ limit ∧ nesting frames + (inner.nesting + 1) ≤ limit ↔ _
  omega

/-- A chain settles if its left part does and its right part does on top of the operator. -/
theorem Settles.chain {token : Token} {op : BinaryOp} {left : Phrase level}
    {joins : Joins level token op} {right : Phrase (level + 1)} {position : Nat}
    {first : Except CompileError State} {rest : List TokenAt} (hadmits : Admits level frames)
    (hleft : Settles limit frames left first)
    (hright : Settles limit (.binary op left.operand position :: frames) right
      (rest.foldlM (step limit) ⟨.binary op left.operand position :: frames, .operand⟩)) :
    Settles limit frames (.chain left token op joins right)
      (first >>= (⟨token, position⟩ :: rest).foldlM (step limit)) := by
  have hpart : Fits limit frames (.chain left token op joins right) → Fits limit frames left := by
    rintro ⟨hheight, hnesting⟩
    have hheight' : max left.expr.height right.expr.height + 1 ≤ limit := hheight
    have hnesting' : nesting frames + max left.nesting right.nesting ≤ limit := hnesting
    constructor <;> omega
  obtain ⟨-, hlevel⟩ := (joins_iff _ _ _).mp joins
  have hbinary := op.level_lt
  cases hleft with
  | tooDeep unfit => exact .tooDeep fun h ↦ unfit (hpart h)
  | pending closes bare =>
    have hcloses := closes level (Nat.le_refl level)
    rw [ok_bind, List.foldlM_cons, step_joins joins]
    by_cases hfit : Fits limit frames left
    · rw [hcloses.fit hfit, reduce_of_admits hadmits (by omega)]
      simp only [ok_bind]
      generalize rest.foldlM (step limit) ⟨_, .operand⟩ = result at hright ⊢
      cases hright with
      | tooDeep unfit => exact .tooDeep fun h ↦ unfit ((fits_chain_iff hfit).mp h).1
      | pending closes' bare' =>
        refine .pending (fun bound hbound ↦ ?_) fun h ↦ absurd h (by omega)
        refine (closes' bound (Nat.le_succ_of_le hbound)).of_frame position ?_ rfl
          (fits_chain_iff hfit)
        rw [reduce, if_pos (by omega)]
        rfl
    · obtain ⟨position', hreduce⟩ := hcloses.unfit hfit
      rw [hreduce]
      exact .tooDeep fun h ↦ hfit (hpart h)

/-- A unary phrase settles if its operand does on top of the operator. -/
theorem Settles.unary {token : Token} {op : UnaryOp} {prefixes : Prefixes token op}
    {operand : Phrase 6} {position : Nat} {rest : List TokenAt}
    (hoperand : nesting frames < limit → Settles limit (.unary op position :: frames) operand
      (rest.foldlM (step limit) ⟨.unary op position :: frames, .operand⟩)) :
    Settles limit frames (.unary token op prefixes operand)
      ((⟨token, position⟩ :: rest).foldlM (step limit) ⟨frames, .operand⟩) := by
  rw [List.foldlM_cons, step_prefix prefixes, enter]
  by_cases hroom : nesting frames < limit
  · have hsettles := hoperand hroom
    rw [if_pos hroom, ok_bind]
    generalize rest.foldlM (step limit) ⟨_, .operand⟩ = result at hsettles ⊢
    cases hsettles with
    | tooDeep unfit => exact .tooDeep fun h ↦ unfit (fits_unary_iff.mp h).1
    | pending closes bare =>
      refine .pending (fun bound hbound ↦ ?_) fun h ↦ absurd h (by omega)
      refine (closes bound hbound).of_frame position ?_ rfl fits_unary_iff
      rw [reduce]
      rfl
  · rw [if_neg hroom]
    exact .tooDeep fun h ↦ hroom (h.room (Nat.succ_pos _))

/-- A group settles if what is in it does inside the parenthesis. -/
theorem Settles.group {inner : Phrase 0} {opening closing : Nat} {rest : List TokenAt}
    (hinner : nesting frames < limit → Settles limit (.group :: frames) inner
      (rest.foldlM (step limit) ⟨.group :: frames, .operand⟩)) :
    Settles limit frames (.group inner)
      ((⟨.openParen, opening⟩ :: (rest ++ [⟨.closeParen, closing⟩])).foldlM (step limit)
        ⟨frames, .operand⟩) := by
  rw [List.foldlM_cons, step_openParen, enter]
  by_cases hroom : nesting frames < limit
  · have hsettles := hinner hroom
    rw [if_pos hroom, ok_bind, List.foldlM_append]
    generalize rest.foldlM (step limit) ⟨_, .operand⟩ = result at hsettles ⊢
    cases hsettles with
    | tooDeep unfit => exact .tooDeep fun h ↦ unfit (fits_group_iff.mp h)
    | pending closes bare =>
      have hcloses := closes 0 (Nat.le_refl 0)
      rw [ok_bind, List.foldlM_cons]
      by_cases hfit : Fits limit (.group :: frames) inner
      · rw [step_closeParen (hcloses.fit hfit)]
        exact .of_fits (fits_group_iff.mpr hfit)
      · obtain ⟨position, hreduce⟩ := hcloses.unfit hfit
        rw [step_close_error (.inl rfl) hreduce]
        exact .tooDeep fun h ↦ hfit (fits_group_iff.mp h)
  · rw [if_neg hroom]
    exact .tooDeep fun h ↦ hroom (h.room (Nat.succ_pos _))

/-- An index settles if its target does and its key does inside the bracket. -/
theorem Settles.index {target : Phrase 7} {key : Phrase 0} {opening closing : Nat}
    {first : Except CompileError State} {rest : List TokenAt}
    (htarget : Settles limit frames target first)
    (hkey : nesting frames < limit → Settles limit (.index target.operand opening :: frames) key
      (rest.foldlM (step limit) ⟨.index target.operand opening :: frames, .operand⟩)) :
    Settles limit frames (.index target key)
      (first >>= (⟨.openBracket, opening⟩ :: (rest ++ [⟨.closeBracket, closing⟩])).foldlM
        (step limit)) := by
  cases htarget with
  | tooDeep unfit =>
    refine .tooDeep fun ⟨hheight, hnesting⟩ ↦ unfit ?_
    have hheight' : max target.expr.height key.expr.height + 1 ≤ limit := hheight
    have hnesting' : nesting frames + max target.nesting (key.nesting + 1) ≤ limit := hnesting
    constructor <;> omega
  | pending closes bare =>
    obtain ⟨hfit, hdone, hstack⟩ := bare (Nat.le_refl 7)
    have hiff := fits_index_iff hfit key opening
    rw [ok_bind, List.foldlM_cons, hdone, hstack, step_openBracket, enter]
    by_cases hroom : nesting frames < limit
    · have hsettles := hkey hroom
      rw [if_pos hroom, ok_bind, List.foldlM_append]
      generalize rest.foldlM (step limit) ⟨_, .operand⟩ = result at hsettles ⊢
      cases hsettles with
      | tooDeep unfit => exact .tooDeep fun h ↦ unfit (hiff.mp h).1
      | pending closes' bare' =>
        have hcloses := closes' 0 (Nat.le_refl 0)
        rw [ok_bind, List.foldlM_cons]
        by_cases hkeyFit : Fits limit (.index target.operand opening :: frames) key
        · rw [step_closeBracket (hcloses.fit hkeyFit), grow]
          by_cases hheight : max target.expr.height key.expr.height < limit
          · rw [Phrase.operand, Phrase.operand, if_pos hheight]
            exact .of_fits (hiff.mpr ⟨hkeyFit, hheight⟩)
          · rw [Phrase.operand, Phrase.operand, if_neg hheight]
            exact .tooDeep fun h ↦ hheight (hiff.mp h).2
        · obtain ⟨position, hreduce⟩ := hcloses.unfit hkeyFit
          rw [step_close_error (.inr rfl) hreduce]
          exact .tooDeep fun h ↦ hkeyFit (hiff.mp h).1
    · rw [if_neg hroom]
      exact .tooDeep fun h ↦ hroom
        (h.room (Nat.lt_of_lt_of_le (Nat.succ_pos _) (Nat.le_max_right _ _)))

end Phrases

/-! ### Runs -/

/-- Reading the tokens of a phrase settles the phrase. -/
theorem run_settles {limit level : Nat} (hlimit : 0 < limit) (phrase : Phrase level)
    {frames : List Frame} (hadmits : Admits level frames) (hnesting : nesting frames ≤ limit)
    {input : List TokenAt} (hinput : input.map TokenAt.token = phrase.tokens) :
    Settles limit frames phrase (input.foldlM (step limit) ⟨frames, .operand⟩) := by
  induction phrase generalizing frames input with
  | tighter phrase ih => exact (ih hadmits.of_tighter hnesting hinput).tighter
  | @chain level left token op joins right ihleft ihright =>
    obtain ⟨first, others, rfl, hfirst, hothers⟩ := List.map_eq_append_iff.mp hinput
    obtain ⟨⟨_, position⟩, rest, rfl, rfl, hrest⟩ := List.map_eq_cons_iff.mp hothers
    have hlevel := ((joins_iff _ _ _).mp joins).2
    have hright : Admits (level + 1) (.binary op left.operand position :: frames) :=
      Nat.lt_succ_of_le (Nat.le_of_eq hlevel)
    rw [List.foldlM_append]
    refine (ihleft hadmits hnesting hfirst).chain hadmits (ihright hright ?_ hrest)
    rwa [nesting_binary]
  | unary token op prefixes operand ih =>
    obtain ⟨⟨_, position⟩, rest, rfl, rfl, hrest⟩ := List.map_eq_cons_iff.mp hinput
    refine .unary fun hroom ↦ ih (admits_of_le (Nat.le_refl 6) _) ?_ hrest
    rwa [nesting_cons rfl]
  | index target key ihtarget ihkey =>
    obtain ⟨first, bracket, rfl, hfirst, hbracket⟩ := List.map_eq_append_iff.mp hinput
    obtain ⟨⟨_, opening⟩, others, rfl, rfl, hothers⟩ := List.map_eq_cons_iff.mp hbracket
    obtain ⟨rest, last, rfl, hrest, hlast⟩ := List.map_eq_append_iff.mp hothers
    obtain ⟨⟨_, closing⟩, rfl, rfl⟩ := List.map_eq_singleton_iff.mp hlast
    have hkey : Admits 0 (.index target.operand opening :: frames) := trivial
    rw [List.foldlM_append]
    refine (ihtarget (admits_of_le (by omega) _) hnesting hfirst).index fun hroom ↦
      ihkey hkey ?_ hrest
    rwa [nesting_cons rfl]
  | literal token value denotes =>
    obtain ⟨⟨_, position⟩, rfl, rfl⟩ := List.map_eq_singleton_iff.mp hinput
    have hfit : Fits limit frames (.literal _ value denotes) := ⟨hlimit, hnesting⟩
    rw [List.foldlM_cons, step_literal denotes]
    exact .of_fits hfit
  | group inner ih =>
    obtain ⟨⟨_, opening⟩, others, rfl, rfl, hothers⟩ := List.map_eq_cons_iff.mp hinput
    obtain ⟨rest, last, rfl, hrest, hlast⟩ := List.map_eq_append_iff.mp hothers
    obtain ⟨⟨_, closing⟩, rfl, rfl⟩ := List.map_eq_singleton_iff.mp hlast
    have hinner : Admits 0 (.group :: frames) := trivial
    refine .group fun hroom ↦ ih hinner ?_ hrest
    rwa [nesting_cons rfl]
  | lookup name =>
    have hfit : Fits limit frames (.lookup name) := ⟨hlimit, hnesting⟩
    rw [foldlM_step_lookup hinput]
    exact .of_fits hfit

/-- A text that is one phrase settles on the empty stack. -/
theorem run_start_settles {limit : Nat} (hlimit : 0 < limit) {phrase : Phrase 0}
    {input : List TokenAt} (hinput : input.map TokenAt.token = phrase.tokens) :
    Settles limit [] phrase (input.foldlM (step limit) start) := by
  have hadmits : Admits 0 [] := trivial
  exact run_settles hlimit phrase hadmits (Nat.zero_le limit) hinput

/-- The tokens of a phrase that fits are parsed to its tree. -/
theorem parse_eq_ok_of_fits {limit : Nat} (hlimit : 0 < limit) {phrase : Phrase 0}
    (hfit : Fits limit [] phrase) {input : List TokenAt}
    (hinput : input.map TokenAt.token = phrase.tokens) (stop : Nat) :
    parse limit input stop = .ok phrase.expr := by
  have hsettles := run_start_settles hlimit hinput
  unfold parse
  generalize input.foldlM (step limit) start = result at hsettles ⊢
  cases hsettles with
  | tooDeep unfit => exact absurd hfit unfit
  | pending closes bare =>
    simp only [ok_bind, finish, (closes 0 (Nat.le_refl 0)).fit hfit]
    rfl

/-- The tokens of a phrase that does not fit are too deep. -/
theorem parse_eq_tooDeep_of_not_fits {limit : Nat} (hlimit : 0 < limit) {phrase : Phrase 0}
    (hunfit : ¬Fits limit [] phrase) {input : List TokenAt}
    (hinput : input.map TokenAt.token = phrase.tokens) (stop : Nat) :
    ∃ position, parse limit input stop = .error (.tooDeep position) := by
  have hsettles := run_start_settles hlimit hinput
  unfold parse
  generalize input.foldlM (step limit) start = result at hsettles ⊢
  cases hsettles with
  | @tooDeep position unfit => exact ⟨position, rfl⟩
  | pending closes bare =>
    obtain ⟨position, hreduce⟩ := (closes 0 (Nat.le_refl 0)).unfit hunfit
    simp only [ok_bind, finish, hreduce]
    exact ⟨position, rfl⟩

/-- Every phrase fits under all limits from some limit on. -/
theorem exists_fits {level : Nat} (phrase : Phrase level) :
    ∃ least, ∀ limit, least ≤ limit → Fits limit [] phrase := by
  refine ⟨max phrase.expr.height phrase.nesting, fun limit h ↦ ?_⟩
  simp only [Fits, nesting_nil]
  omega

/-- Phrases that derive the same tokens have the same tree. -/
theorem Phrase.expr_eq_of_tokens_eq {phrase other : Phrase 0} (h : phrase.tokens = other.tokens) :
    phrase.expr = other.expr := by
  obtain ⟨least, hphrase⟩ := exists_fits phrase
  obtain ⟨least', hother⟩ := exists_fits other
  have hlimit : 0 < least + least' + 1 := by omega
  have hinput : (phrase.tokens.map fun token ↦ TokenAt.mk token 0).map TokenAt.token =
      phrase.tokens := by
    rw [List.map_map]
    exact List.map_id _
  have hparse := parse_eq_ok_of_fits hlimit (hphrase _ (by omega)) hinput 0
  rw [parse_eq_ok_of_fits hlimit (hother _ (by omega)) (hinput.trans h) 0] at hparse
  exact (Except.ok.inj hparse).symm

end FlowGate.Expr

import FlowGate.Expr.Token

/-!
# The grammar of expressions

The grammar over tokens, as the trees of its derivations. A `Phrase` of a level derives a piece of
a token list. Levels 0 to 5 are the chains of binary operators, from `or` to products; a chain grows
at its right end, so operators of one level group to the left. Level 6 has the unary operators,
level 7 the indexed operands and level 8 the literals, groups and look-ups.

`Phrase.tokens` is what a phrase derives and `Phrase.expr` the tree that the grammar gives it;
`Derives` joins the two. `Phrase.nesting` counts the groups, brackets and unary operators that are
open at once. A name that the tree looks up stands in the tokens as the argument of a look-up
(`Phrase.lookup_isInfix`).
-/

set_option autoImplicit false

namespace FlowGate.Expr

/-- The tokens that join two operands at a level, and the operators that they stand for. -/
inductive Joins : Nat → Token → BinaryOp → Prop where
  | or : Joins 0 .or .or
  | and : Joins 1 .and .and
  | equal : Joins 2 .equal .equal
  | notEqual : Joins 2 .notEqual .notEqual
  | less : Joins 3 .less .less
  | lessEqual : Joins 3 .lessEqual .lessEqual
  | greater : Joins 3 .greater .greater
  | greaterEqual : Joins 3 .greaterEqual .greaterEqual
  | contains : Joins 3 .contains .contains
  | plus : Joins 4 .plus .add
  | minus : Joins 4 .minus .sub
  | star : Joins 5 .star .mul
  | slash : Joins 5 .slash .div
  | percent : Joins 5 .percent .rem

/-- The tokens that stand before their operand, and the operators that they stand for. -/
inductive Prefixes : Token → UnaryOp → Prop where
  | not : Prefixes .not .not
  | minus : Prefixes .minus .neg

/-- The tokens that are literals, and their values. -/
inductive Denotes : Token → Value → Prop where
  | int (n : Int64) : Denotes (.int n) (.int n)
  | float (x : Float) : Denotes (.float x) (.float x)
  | string (s : String) : Denotes (.string s) (.string s)
  | trueWord : Denotes .trueWord (.bool true)
  | falseWord : Denotes .falseWord (.bool false)
  | nullWord : Denotes .nullWord .undefined

theorem joins_iff (level : Nat) (token : Token) (op : BinaryOp) :
    Joins level token op ↔ token.binaryOp? = some op ∧ op.level = level := by
  constructor
  · intro h
    cases h <;> exact ⟨rfl, rfl⟩
  · rintro ⟨htoken, rfl⟩
    cases token <;> cases htoken <;> constructor

theorem prefixes_iff (token : Token) (op : UnaryOp) :
    Prefixes token op ↔ token.unaryOp? = some op := by
  constructor
  · intro h
    cases h <;> rfl
  · intro h
    cases token <;> cases h <;> constructor

theorem denotes_iff (token : Token) (value : Value) :
    Denotes token value ↔ token.literal? = some value := by
  constructor
  · intro h
    cases h <;> rfl
  · intro h
    cases token <;> cases h <;> constructor

/-- A derivation from one of the levels of the grammar. -/
inductive Phrase : Nat → Type where
  /-- One operand of a level is a phrase of the level. -/
  | tighter {level : Nat} (phrase : Phrase (level + 1)) : Phrase level
  /-- A chain of a level with one more operand. -/
  | chain {level : Nat} (left : Phrase level) (token : Token) (op : BinaryOp)
      (joins : Joins level token op) (right : Phrase (level + 1)) : Phrase level
  | unary (token : Token) (op : UnaryOp) (prefixes : Prefixes token op) (operand : Phrase 6) :
      Phrase 6
  | index (target : Phrase 7) (key : Phrase 0) : Phrase 7
  | literal (token : Token) (value : Value) (denotes : Denotes token value) : Phrase 8
  | group (inner : Phrase 0) : Phrase 8
  | lookup (name : String) : Phrase 8

namespace Phrase

/-- The tokens that the phrase derives. -/
def tokens {level : Nat} : Phrase level → List Token
  | tighter phrase => phrase.tokens
  | chain left token _ _ right => left.tokens ++ token :: right.tokens
  | unary token _ _ operand => token :: operand.tokens
  | index target key => target.tokens ++ .openBracket :: (key.tokens ++ [.closeBracket])
  | literal token _ _ => [token]
  | group inner => .openParen :: (inner.tokens ++ [.closeParen])
  | lookup name => [.name "lookup", .openParen, .string name, .closeParen]

/-- The tree of the phrase. Groups leave no trace in it. -/
def expr {level : Nat} : Phrase level → Expr
  | tighter phrase => phrase.expr
  | chain left _ op _ right => .binary op left.expr right.expr
  | unary _ op _ operand => .unary op operand.expr
  | index target key => .index target.expr key.expr
  | literal _ value _ => .literal value
  | group inner => inner.expr
  | lookup name => .lookup name

/-- The greatest number of groups, index brackets and unary operators that are open at once. A unary
operator is open over its operand. -/
def nesting {level : Nat} : Phrase level → Nat
  | tighter phrase => phrase.nesting
  | chain left _ _ _ right => max left.nesting right.nesting
  | unary _ _ _ operand => operand.nesting + 1
  | index target key => max target.nesting (key.nesting + 1)
  | literal _ _ _ => 0
  | group inner => inner.nesting + 1
  | lookup _ => 0

/-- A phrase is also one of every looser level. -/
theorem exists_looser {tight loose : Nat} (h : loose ≤ tight) (phrase : Phrase tight) :
    ∃ other : Phrase loose, other.tokens = phrase.tokens ∧ other.expr = phrase.expr ∧
      other.nesting = phrase.nesting := by
  induction h with
  | refl => exact ⟨phrase, rfl, rfl, rfl⟩
  | step _ ih => exact ih phrase.tighter

/-- A name that the tree looks up is the argument of a look-up among the tokens. -/
theorem lookup_isInfix {level : Nat} (phrase : Phrase level) {name : String}
    (hname : name ∈ phrase.expr.lookups) :
    [.name "lookup", .openParen, .string name, .closeParen] <:+: phrase.tokens := by
  induction phrase with
  | tighter phrase ih => exact ih hname
  | chain left token op _ right ihleft ihright =>
    rcases List.mem_append.mp hname with hname | hname
    · exact (ihleft hname).trans (List.prefix_append _ _).isInfix
    · exact (ihright hname).trans ((List.suffix_cons _ _).trans (List.suffix_append _ _)).isInfix
  | unary token op _ operand ih => exact (ih hname).trans (List.suffix_cons _ _).isInfix
  | index target key ihtarget ihkey =>
    rcases List.mem_append.mp hname with hname | hname
    · exact (ihtarget hname).trans (List.prefix_append _ _).isInfix
    · exact ((ihkey hname).trans (List.prefix_append _ _).isInfix).trans
        ((List.suffix_cons _ _).trans (List.suffix_append _ _)).isInfix
  | literal token value _ => cases hname
  | group inner ih =>
    exact ((ih hname).trans (List.prefix_append _ _).isInfix).trans (List.suffix_cons _ _).isInfix
  | lookup other =>
    obtain rfl := List.mem_singleton.mp hname
    exact List.infix_rfl

end Phrase

/-- The tokens derive the tree in the grammar of expressions. -/
def Derives (tokens : List Token) (expr : Expr) : Prop :=
  ∃ phrase : Phrase 0, phrase.tokens = tokens ∧ phrase.expr = expr

end FlowGate.Expr

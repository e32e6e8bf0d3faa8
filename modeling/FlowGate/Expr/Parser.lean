import FlowGate.Expr.Lexeme

/-!
# Reading tokens as an expression

The parser reads one token at a time. Its state is a stack of open frames (operators that wait for
their right operand, and open parentheses and brackets) and what may come next. A token that ends an
operand first closes every operator frame that binds at least as tightly (`reduce`), so operators
of one level group to the left. `parse` runs the tokens through `step` and closes what is left.

Two limits hold: at most `limit` parentheses, brackets and unary operators are open at once, and
no tree is higher than `limit`.
-/

set_option autoImplicit false

namespace FlowGate

namespace Expr

/-- The nesting limit of expressions. -/
def nestingLimit : Nat := 128

/-- The one function of the language. -/
def lookupName : String := "lookup"

/-- A finished operand and its height. -/
structure Operand where
  expr : Expr
  height : Nat

/-- What is open: an operator before its right operand, or a bracket before its closing one. The
position is where the operator or bracket stands. -/
inductive Frame where
  | binary (op : BinaryOp) (left : Operand) (position : Nat)
  | unary (op : UnaryOp) (position : Nat)
  | group
  | index (target : Operand) (position : Nat)

namespace Frame

/-- Whether the frame counts as nesting. -/
def nests : Frame → Bool
  | binary .. => false
  | unary .. | group | index .. => true

/-- The character that closes the frame, which is a parenthesis or bracket. -/
def close : Frame → Char
  | index .. => ']'
  | _ => ')'

end Frame

/-- What may come next: an operand, what goes on after an operand, or the next part of a look-up.
-/
inductive Expected where
  | operand
  | continuation (done : Operand)
  | callOpen (function : String) (position : Nat)
  | callArgument (openPosition : Nat)
  | callClose (name : String)

structure State where
  frames : List Frame
  expected : Expected

/-- How many parentheses, brackets and unary operators are open. -/
def nesting (frames : List Frame) : Nat :=
  frames.countP Frame.nests

/-- Opens a frame that nests. -/
def enter (limit : Nat) (frame : Frame) (frames : List Frame) (position : Nat) :
    Except CompileError State :=
  if nesting frames < limit then
    .ok ⟨frame :: frames, .operand⟩
  else
    .error (.tooDeep position)

/-- A node over operands of at most this height. -/
def grow (limit : Nat) (expr : Expr) (height position : Nat) : Except CompileError Operand :=
  if height < limit then .ok ⟨expr, height + 1⟩ else .error (.tooDeep position)

/-- Closes the operator frames on top that bind at least as tightly as `level`. -/
def reduce (limit level : Nat) : Operand → List Frame → Except CompileError (Operand × List Frame)
  | done, .binary op left position :: frames =>
    if level ≤ op.level then do
      let node ← grow limit (.binary op left.expr done.expr) (max left.height done.height) position
      reduce limit level node frames
    else
      .ok (done, .binary op left position :: frames)
  | done, .unary op position :: frames => do
    let node ← grow limit (.unary op done.expr) done.height position
    reduce limit level node frames
  | done, frames => .ok (done, frames)

/-- A token where an operand may start. -/
def stepOperand (limit : Nat) (frames : List Frame) (next : TokenAt) : Except CompileError State :=
  match next.token.literal?, next.token.unaryOp?, next.token with
  | some value, _, _ => .ok ⟨frames, .continuation ⟨.literal value, 1⟩⟩
  | none, some op, _ => enter limit (.unary op next.position) frames next.position
  | none, none, .openParen => enter limit .group frames next.position
  | none, none, .name text => .ok ⟨frames, .callOpen text next.position⟩
  | none, none, token => .error (.syntactic (.expectedOperand (some token)) next.position)

/-- A token after an operand. -/
def stepContinuation (limit : Nat) (done : Operand) (frames : List Frame) (next : TokenAt) :
    Except CompileError State :=
  match next.token, next.token.binaryOp? with
  | .openBracket, _ => enter limit (.index done next.position) frames next.position
  | _, some op => do
    let (left, outer) ← reduce limit op.level done frames
    .ok ⟨.binary op left next.position :: outer, .operand⟩
  | token, none => do
    let (inner, outer) ← reduce limit 0 done frames
    match token, outer with
    | .closeParen, .group :: rest => .ok ⟨rest, .continuation inner⟩
    | .closeBracket, .index target position :: rest =>
      let height := max target.height inner.height
      let node ← grow limit (.index target.expr inner.expr) height position
      .ok ⟨rest, .continuation node⟩
    | _, frame :: _ => .error (.syntactic (.expectedClose frame.close (some token)) next.position)
    | _, [] => .error (.syntactic (.trailing token) next.position)

/-- Reads one token. -/
def step (limit : Nat) (state : State) (next : TokenAt) : Except CompileError State :=
  match state.expected with
  | .operand => stepOperand limit state.frames next
  | .continuation done => stepContinuation limit done state.frames next
  | .callOpen function position =>
    match next.token with
    | .openParen =>
      if function = lookupName then
        .ok ⟨state.frames, .callArgument next.position⟩
      else
        .error (.unknownFunction function position)
    | _ => .error (.syntactic (.unknownName function) position)
  | .callArgument _ =>
    match next.token with
    | .string name => .ok ⟨state.frames, .callClose name⟩
    | token => .error (.syntactic (.expectedAttribute token) next.position)
  | .callClose name =>
    match next.token with
    | .closeParen => .ok ⟨state.frames, .continuation ⟨.lookup name, 1⟩⟩
    | token => .error (.syntactic (.expectedClose ')' (some token)) next.position)

/-- The end of the text, at the byte offset `stop`. A look-up without its argument is reported at
its parenthesis. -/
def finish (limit : Nat) (state : State) (stop : Nat) : Except CompileError Expr :=
  match state.expected with
  | .operand => .error (.syntactic (.expectedOperand none) stop)
  | .continuation done => do
    let (inner, outer) ← reduce limit 0 done state.frames
    match outer with
    | [] => .ok inner.expr
    | frame :: _ => .error (.syntactic (.expectedClose frame.close none) stop)
  | .callOpen function position => .error (.syntactic (.unknownName function) position)
  | .callArgument openPosition =>
    .error (.syntactic (.expectedAttribute .openParen) openPosition)
  | .callClose _ => .error (.syntactic (.expectedClose ')' none) stop)

/-- The state before the first token. -/
def start : State :=
  ⟨[], .operand⟩

/-- The expression that the tokens of a text of `stop` bytes make up. -/
def parse (limit : Nat) (tokens : List TokenAt) (stop : Nat) : Except CompileError Expr := do
  let state ← tokens.foldlM (step limit) start
  finish limit state stop

/-- Compiles a text to an expression. -/
def compile (text : String) : Except CompileError Expr := do
  let tokens ← tokenize text.toList
  parse nestingLimit tokens (byteLength text.toList)

end Expr

end FlowGate

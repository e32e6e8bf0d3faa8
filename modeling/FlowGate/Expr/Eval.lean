import FlowGate.Expr.Basic
import FlowGate.Number.Binary64
import FlowGate.Number.Integer

/-!
# Evaluating expressions

`eval` gives the value of an expression where `env` says what each looked-up name stands for.
Operators apply to values of fitting kinds only: integer arithmetic is exact or an overflow, an
integer beside a double counts as a double, and what is `undefined` stays so when indexed. `and` and
`or` look at their right operand only if the left one leaves the answer open.
-/

set_option autoImplicit false

namespace FlowGate

/-- What can fail to apply to a value. -/
inductive Operation where
  | unary (op : UnaryOp)
  | binary (op : BinaryOp)
  | index
  deriving DecidableEq

def Operation.symbol : Operation → String
  | unary op => op.symbol
  | binary op => op.symbol
  | index => "[]"

inductive EvalError where
  | operands (op : Operation) (left right : Kind)
  | operand (op : Operation) (kind : Kind)
  | notIndexable (target : Kind)
  | divisionByZero
  | overflow (op : Operation)
  deriving DecidableEq

def EvalError.message : EvalError → String
  | operands op left right =>
    "cannot apply '" ++ op.symbol ++ "' to " ++ left.name ++ " and " ++ right.name
  | operand op kind => "cannot apply '" ++ op.symbol ++ "' to " ++ kind.name
  | notIndexable target => "cannot index into " ++ target.name
  | divisionByZero => "division by zero"
  | overflow op => "integer overflow in '" ++ op.symbol ++ "'"

namespace Value

open OrderedMap

mutual

/-- Whether two values are equal. Numbers compare across integers and doubles, a token is equal to
a token or string of the same text, and mappings are equal if their keys are and the values under
each. -/
def equals : Value → Value → Bool
  | bool a, bool b => a == b
  | int a, int b => a == b
  | float a, float b => a == b
  | int a, float b => Binary64.ofInt64 a == b
  | float a, int b => a == Binary64.ofInt64 b
  | string a, string b => a == b
  | token a, token b => a == b
  | token a, string b => a == b
  | string a, token b => a == b
  | mapping a, mapping b => OrderedMap.size a == OrderedMap.size b && entriesEqual a b
  | undefined, undefined => true
  | _, _ => false

/-- Whether each entry has an equal one under its key among the others. -/
def entriesEqual {low : Option String} :
    Entries String Value low → OrderedMap String Value → Bool
  | .nil, _ => true
  | .cons key _ value rest, others =>
    (match Entries.get? key others with
      | some other => value.equals other
      | none => false) && entriesEqual rest others

end

/-- How two values compare. A double that is not a number is comparable but unordered. -/
inductive Comparison where
  | incomparable
  | unordered
  | ordered (order : Ordering)
  deriving DecidableEq

def compareFloats (a b : Float) : Comparison :=
  if a < b then .ordered .lt
  else if a == b then .ordered .eq
  else if b < a then .ordered .gt
  else .unordered

/-- Integers and doubles compare as numbers, strings by their code points. -/
def compareWith : Value → Value → Comparison
  | int a, int b => .ordered (compare a.toInt b.toInt)
  | int a, float b => compareFloats (Binary64.ofInt64 a) b
  | float a, int b => compareFloats a (Binary64.ofInt64 b)
  | float a, float b => compareFloats a b
  | string a, string b =>
    .ordered (if a < b then .lt else if a = b then .eq else .gt)
  | _, _ => .incomparable

end Value

/-- Whether `part` occurs in a text as a run of characters. -/
def occursIn (part : List Char) : List Char → Bool
  | [] => part.isEmpty
  | c :: cs => part.isPrefixOf (c :: cs) || occursIn part cs

namespace BinaryOp

/-- The operation does not apply to these values. -/
def mismatch (op : BinaryOp) (left right : Value) : EvalError :=
  .operands (.binary op) left.kind right.kind

/-- The boolean that a value is, for the operators that join booleans. -/
def boolean (op : BinaryOp) (value : Value) : Except EvalError Bool :=
  match value.asBool? with
  | some b => .ok b
  | none => .error (.operand (.binary op) value.kind)

/-- An ordering operator holds of the orders that `accepts` picks. -/
def order (op : BinaryOp) (accepts : Ordering → Bool) (left right : Value) :
    Except EvalError Value :=
  match left.compareWith right with
  | .incomparable => .error (op.mismatch left right)
  | .unordered => .ok (.bool false)
  | .ordered result => .ok (.bool (accepts result))

/-- Substring of a string or key of a mapping. Nothing is contained in what is undefined. -/
def containment (left right : Value) : Except EvalError Value :=
  match left, right with
  | .string whole, .string part => .ok (.bool (occursIn part.toList whole.toList))
  | .mapping entries, .string key => .ok (.bool (OrderedMap.contains entries key))
  | .undefined, _ => .ok (.bool false)
  | _, _ => .error (mismatch .contains left right)

/-- Integers stay integers, and a double on either side makes the result one. -/
def arithmetic (op : BinaryOp) (onInts : Int64 → Int64 → Option Int64)
    (onFloats : Float → Float → Float) (left right : Value) : Except EvalError Value :=
  match left, right with
  | .int a, .int b =>
    match onInts a b with
    | some n => .ok (.int n)
    | none => .error (.overflow (.binary op))
  | .int a, .float b => .ok (.float (onFloats (Binary64.ofInt64 a) b))
  | .float a, .int b => .ok (.float (onFloats a (Binary64.ofInt64 b)))
  | .float a, .float b => .ok (.float (onFloats a b))
  | _, _ => .error (op.mismatch left right)

/-- Arithmetic that refuses an integer divided by the integer zero. -/
def division (op : BinaryOp) (onInts : Int64 → Int64 → Option Int64)
    (onFloats : Float → Float → Float) (left right : Value) : Except EvalError Value :=
  match left, right with
  | .int _, .int 0 => .error .divisionByZero
  | _, _ => op.arithmetic onInts onFloats left right

/-- The value of an operator on two values. -/
def apply (op : BinaryOp) (left right : Value) : Except EvalError Value :=
  match op with
  -- `eval` decides these two itself and does not apply them to two values.
  | or | and => do
    let a ← boolean op left
    if a then
      let b ← boolean op right
      .ok (.bool b)
    else
      .ok (.bool false)
  | equal => .ok (.bool (left.equals right))
  | notEqual => .ok (.bool (!left.equals right))
  | less => order less Ordering.isLT left right
  | lessEqual => order lessEqual Ordering.isLE left right
  | greater => order greater Ordering.isGT left right
  | greaterEqual => order greaterEqual Ordering.isGE left right
  | contains => containment left right
  | add =>
    match left, right with
    | .string a, .string b => .ok (.string (a ++ b))
    | _, _ => arithmetic add Integer.add? (· + ·) left right
  | sub => arithmetic sub Integer.sub? (· - ·) left right
  | mul => arithmetic mul Integer.mul? (· * ·) left right
  | div => division div Integer.quot? (· / ·) left right
  | rem => division rem Integer.rem? Binary64.remainder left right

end BinaryOp

/-- The value of a unary operator on a value. -/
def UnaryOp.apply (op : UnaryOp) (value : Value) : Except EvalError Value :=
  match op, value with
  | not, .bool b => .ok (.bool !b)
  | neg, .int n =>
    match Integer.neg? n with
    | some result => .ok (.int result)
    | none => .error (.overflow (.unary neg))
  | neg, .float x => .ok (.float (-x))
  | op, value => .error (.operand (.unary op) value.kind)

/-- The value under a key. A missing key gives `undefined`. -/
def Value.at (target key : Value) : Except EvalError Value :=
  match target, key with
  | .undefined, _ => .ok .undefined
  | .mapping entries, .string name => .ok ((OrderedMap.Entries.get? name entries).getD .undefined)
  | .mapping entries, .token name => .ok ((OrderedMap.Entries.get? name entries).getD .undefined)
  | .mapping _, key => .error (.operands .index .mapping key.kind)
  | target, _ => .error (.notIndexable target.kind)

/-- The value of an expression. -/
def Expr.eval (env : String → Value) : Expr → Except EvalError Value
  | .literal value => .ok value
  | .lookup name => .ok (env name)
  | .index target key => do
    let target ← target.eval env
    let key ← key.eval env
    target.at key
  | .unary op operand => do
    let value ← operand.eval env
    op.apply value
  | .binary .and left right => do
    let a ← BinaryOp.boolean .and (← left.eval env)
    if a then
      let b ← BinaryOp.boolean .and (← right.eval env)
      .ok (.bool b)
    else
      .ok (.bool false)
  | .binary .or left right => do
    let a ← BinaryOp.boolean .or (← left.eval env)
    if a then
      .ok (.bool true)
    else
      let b ← BinaryOp.boolean .or (← right.eval env)
      .ok (.bool b)
  | .binary op left right => do
    let a ← left.eval env
    let b ← right.eval env
    op.apply a b

namespace Expr

variable {env : String → Value} {left right : Expr} {a b : Value}

theorem eval_unary (op : UnaryOp) (hleft : left.eval env = .ok a) :
    (unary op left).eval env = op.apply a := by
  rw [eval, hleft]
  rfl

/-- Apart from `and` and `or`, an operator applies to the values of both operands. -/
theorem eval_binary {op : BinaryOp} (hand : op ≠ .and) (hor : op ≠ .or)
    (hleft : left.eval env = .ok a) (hright : right.eval env = .ok b) :
    (binary op left right).eval env = op.apply a b := by
  rw [eval, hleft, hright]
  · rfl
  · exact hand
  · exact hor

end Expr

end FlowGate

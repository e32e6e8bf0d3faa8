import FlowGate.Value.Basic

/-!
# Expressions

The trees that link texts are compiled to, with their operators. Binary operators bind at six
levels: `or` loosest, then `and`, equality, comparison, sums, products. Unary operators bind
tighter than all of them, and indexing tightest.
-/

set_option autoImplicit false

namespace FlowGate

inductive UnaryOp where
  | not
  | neg
  deriving DecidableEq

inductive BinaryOp where
  | or
  | and
  | equal
  | notEqual
  | less
  | lessEqual
  | greater
  | greaterEqual
  | contains
  | add
  | sub
  | mul
  | div
  | rem
  deriving DecidableEq

namespace UnaryOp

def symbol : UnaryOp → String
  | not => "!"
  | neg => "-"

end UnaryOp

namespace BinaryOp

def symbol : BinaryOp → String
  | or => "||"
  | and => "&&"
  | equal => "=="
  | notEqual => "!="
  | less => "<"
  | lessEqual => "<="
  | greater => ">"
  | greaterEqual => ">="
  | contains => "contains"
  | add => "+"
  | sub => "-"
  | mul => "*"
  | div => "/"
  | rem => "%"

/-- How tight the operator binds. Operators of one level group to the left. -/
def level : BinaryOp → Nat
  | or => 0
  | and => 1
  | equal | notEqual => 2
  | less | lessEqual | greater | greaterEqual | contains => 3
  | add | sub => 4
  | mul | div | rem => 5

theorem level_lt (op : BinaryOp) : op.level < 6 := by
  cases op <;> decide

end BinaryOp

/-- An expression. `null` is the literal `undefined`. -/
inductive Expr where
  | literal (value : Value)
  | lookup (name : String)
  | index (target key : Expr)
  | unary (op : UnaryOp) (operand : Expr)
  | binary (op : BinaryOp) (left right : Expr)

namespace Expr

instance : Inhabited Expr :=
  ⟨literal .undefined⟩

/-- The height of the tree: leaves and look-ups have height one. -/
def height : Expr → Nat
  | literal _ => 1
  | lookup _ => 1
  | index target key => max target.height key.height + 1
  | unary _ operand => operand.height + 1
  | binary _ left right => max left.height right.height + 1

/-- The names that the expression looks up, from left to right. -/
def lookups : Expr → List String
  | literal _ => []
  | lookup name => [name]
  | index target key => target.lookups ++ key.lookups
  | unary _ operand => operand.lookups
  | binary _ left right => left.lookups ++ right.lookups

end Expr

end FlowGate

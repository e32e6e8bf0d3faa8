import FlowGate.Expr.Basic
import FlowGate.Number.Layout
import FlowGate.Text.Quoted

/-!
# Tokens of expressions

The words that an expression text is made of. `not` stands for both `!` and the word `not`, `and`
and `or` likewise, and `minus` is both the sign and the operator.
-/

set_option autoImplicit false

namespace FlowGate

inductive Token where
  | int (n : Int64)
  | float (x : Float)
  | string (s : String)
  | name (text : String)
  | trueWord
  | falseWord
  | nullWord
  | and
  | or
  | not
  | contains
  | equal
  | notEqual
  | less
  | lessEqual
  | greater
  | greaterEqual
  | plus
  | minus
  | star
  | slash
  | percent
  | openParen
  | closeParen
  | openBracket
  | closeBracket

namespace Token

/-- How messages name the token. -/
def describe : Token → String
  | int n => "Int(" ++ toString n.toInt ++ ")"
  | float x => "Float(" ++ Layout.marked.render x ++ ")"
  | string s => "Str(" ++ Text.quote s ++ ")"
  | name text => "Ident(" ++ Text.quote text ++ ")"
  | trueWord => "True"
  | falseWord => "False"
  | nullWord => "Null"
  | and => "And"
  | or => "Or"
  | not => "Not"
  | contains => "Contains"
  | equal => "EqEq"
  | notEqual => "NotEq"
  | less => "Lt"
  | lessEqual => "Lte"
  | greater => "Gt"
  | greaterEqual => "Gte"
  | plus => "Plus"
  | minus => "Minus"
  | star => "Star"
  | slash => "Slash"
  | percent => "Percent"
  | openParen => "LParen"
  | closeParen => "RParen"
  | openBracket => "LBracket"
  | closeBracket => "RBracket"

/-- The literal that the token is by itself. -/
def literal? : Token → Option Value
  | int n => some (.int n)
  | float x => some (.float x)
  | string s => some (.string s)
  | trueWord => some (.bool true)
  | falseWord => some (.bool false)
  | nullWord => some .undefined
  | _ => none

/-- The unary operator that the token is before an operand. -/
def unaryOp? : Token → Option UnaryOp
  | not => some .not
  | minus => some .neg
  | _ => none

/-- The binary operator that the token is after an operand. -/
def binaryOp? : Token → Option BinaryOp
  | or => some .or
  | and => some .and
  | equal => some .equal
  | notEqual => some .notEqual
  | less => some .less
  | lessEqual => some .lessEqual
  | greater => some .greater
  | greaterEqual => some .greaterEqual
  | contains => some .contains
  | plus => some .add
  | minus => some .sub
  | star => some .mul
  | slash => some .div
  | percent => some .rem
  | _ => none

/-- The token that a word is: a keyword, or else a name. -/
def ofWord (word : List Char) : Token :=
  match String.ofList word with
  | "true" => trueWord
  | "false" => falseWord
  | "null" => nullWord
  | "and" => and
  | "or" => or
  | "not" => not
  | "contains" => contains
  | text => name text

end Token

/-- A token and the byte offset at which it starts. -/
structure TokenAt where
  token : Token
  position : Nat

end FlowGate

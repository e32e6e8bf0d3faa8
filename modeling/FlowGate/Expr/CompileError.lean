import FlowGate.Expr.Token

/-!
# Why a text does not compile

The causes for which an expression text is refused, each with the byte offset it is reported at.
-/

set_option autoImplicit false

namespace FlowGate

/-- Why no token can be read. -/
inductive LexFault where
  | unexpectedChar (c : Char)
  | unterminatedString
  | invalidNumber (text : String)
  deriving DecidableEq

/-- What the order of tokens breaks. `found` is `none` at the end of the text. -/
inductive SyntaxFault where
  | expectedOperand (found : Option Token)
  | expectedClose (close : Char) (found : Option Token)
  | expectedAttribute (found : Token)
  | trailing (found : Token)
  | unknownName (text : String)

inductive CompileError where
  | lexical (fault : LexFault) (position : Nat)
  | syntactic (fault : SyntaxFault) (position : Nat)
  | tooDeep (position : Nat)
  | unknownFunction (name : String) (position : Nat)

/-- The part of a message that tells what stood there instead. -/
def foundText (found : Option Token) : String :=
  ", found " ++ (found.map Token.describe).getD "end of input"

def SyntaxFault.message : SyntaxFault → String
  | expectedOperand found => "expected an expression" ++ foundText found
  | expectedClose close found => "expected '" ++ close.toString ++ "'" ++ foundText found
  | expectedAttribute found => "lookup expects a string literal" ++ foundText (some found)
  | trailing found => "unexpected " ++ found.describe ++ " after expression"
  | unknownName text => "unknown identifier '" ++ text ++ "'"

def LexFault.message (position : Nat) : LexFault → String
  | unexpectedChar c =>
    "unexpected character '" ++ c.toString ++ "' at position " ++ toString position
  | unterminatedString =>
    "unterminated string literal starting at position " ++ toString position
  | invalidNumber text =>
    "invalid number literal '" ++ text ++ "' at position " ++ toString position

def CompileError.message : CompileError → String
  | lexical fault position => fault.message position
  | syntactic fault position =>
    "syntax error at position " ++ toString position ++ ": " ++ fault.message
  | tooDeep position => "expression nested too deeply at position " ++ toString position
  | unknownFunction name position =>
    "unknown function '" ++ name ++ "' at position " ++ toString position

end FlowGate

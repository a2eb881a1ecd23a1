/-!
Expressions over target values: literals, symbols, casts, pointer indexing and member access. An
index is a signed 64-bit number; a member may be reached with a dot or with an arrow.
-/
namespace HeapLens

inductive Expr where
  | number (value : UInt64)
  | symbol (name : String)
  | deref (operand : Expr)
  | cast (type : String) (operand : Expr)
  | index (base : Expr) (position : Int64)
  | member (base : Expr) (field : String) (arrow : Bool)
  deriving DecidableEq, Repr

namespace Expr

inductive Token where
  | number (value : UInt64)
  | name (text : String)
  | star | minus | lparen | rparen | lbracket | rbracket | dot | arrow
  deriving DecidableEq, Repr

/-- How a token is called in a complaint about it. -/
def Token.label : Token → String
  | .number value => s!"Number({value})"
  | .name text => "Name(\"" ++ text ++ "\")"
  | .star => "Star"
  | .minus => "Minus"
  | .lparen => "LParen"
  | .rparen => "RParen"
  | .lbracket => "LBracket"
  | .rbracket => "RBracket"
  | .dot => "Dot"
  | .arrow => "Arrow"

def Token.startsOperand : Token → Bool
  | .number _ | .name _ | .star | .lparen => true
  | _ => false

/-- What is wrong with a text that is no expression. -/
inductive Fault where
  | unexpectedCharacter (c : Char)
  | invalidNumber (text : String)
  | unclosedIndex
  | unclosedParenthesis
  | missingIndex
  | indexOutOfRange
  | missingMember
  | unexpectedToken (token : Token)
  | unexpectedEnd
  | empty
  | trailingInput
  deriving DecidableEq, Repr

def Fault.message : Fault → String
  | .unexpectedCharacter c => "unexpected character '" ++ String.singleton c ++ "'"
  | .invalidNumber text => "invalid number '" ++ text ++ "'"
  | .unclosedIndex => "expected ']'"
  | .unclosedParenthesis => "expected ')'"
  | .missingIndex => "expected index"
  | .indexOutOfRange => "index out of range"
  | .missingMember => "expected member name"
  | .unexpectedToken token => "unexpected token " ++ token.label
  | .unexpectedEnd => "unexpected end of expression"
  | .empty => "empty expression"
  | .trailingInput => "trailing input"

end Expr
end HeapLens

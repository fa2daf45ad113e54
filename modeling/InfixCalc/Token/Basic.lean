import InfixCalc.Double.Text
import InfixCalc.Operator
import InfixCalc.Text

/-!
# Tokens

A token is a piece of text at a position, listed under a kind, with a value if it
is an operand.  Kind and text are independent of each other: the kind says where
a token may stand, and only its text says which operator or function it means.
-/

namespace InfixCalc

/-- The value of an operand, which may be missing. -/
abbrev Value := Option Float

def valueText : Value → String
  | none => "None"
  | some value => Layout.result.text value

/-- The word under which a token or an expression is listed. -/
inductive Kind
  | number
  | constant
  | function
  | operator (label : Op)
  | openParen
  | closeParen
  deriving DecidableEq, Repr

def Kind.name : Kind → String
  | .number => "NUMBER"
  | .constant => "CONSTANT"
  | .function => "FUNCTION"
  | .operator .add => "PLUS"
  | .operator .sub => "MINUS"
  | .operator .mul => "STAR"
  | .operator .div => "SLASH"
  | .operator .pow => "CARET"
  | .openParen => "LPAREN"
  | .closeParen => "RPAREN"

def Kind.isOperator : Kind → Bool
  | .operator _ => true
  | _ => false

/-- Can an operand begin here? -/
def Kind.startsOperand : Kind → Bool
  | .number | .constant | .function | .openParen => true
  | _ => false

/-- Does an operand end here? -/
def Kind.endsOperand : Kind → Bool
  | .number | .constant | .closeParen => true
  | _ => false

structure Token where
  kind : Kind
  text : String
  position : Int
  value : Value
  deriving DecidableEq

/-- What tokens promise their readers: an operator's text names an operator, a
function's text names a function, and an operand has a value. -/
def Token.isWellFormed (token : Token) : Bool :=
  match token.kind with
  | .operator _ => (Op.ofText? token.text).isSome
  | .function => (Fn.ofName? token.text).isSome
  | .number | .constant => token.value.isSome
  | .openParen | .closeParen => true

/-- The line that lists a token. -/
def Token.listing (token : Token) : String :=
  let value := if token.value.isNone then "" else ", " ++ valueText token.value
  "Token(" ++ token.kind.name ++ ", " ++ quoted token.text ++ value
    ++ ", pos=" ++ toString token.position ++ ")"

end InfixCalc

import InfixCalc.Fault.Report
import InfixCalc.Operator
import InfixCalc.Text

/-!
# Faults of an expression

Everything that can be wrong with an expression, as a cause at a position.
Positions count characters from zero; an expression that lacks something as a
whole has no position.
-/

namespace InfixCalc

inductive Cause
  | unexpectedCharacter (char : Char)
  | malformedNumber (numeral : String)
  | unknownIdentifier (name : String)
  /-- A function name with something else than an open parenthesis behind it. -/
  | notCalled (name : String) (found : Option String)
  /-- Two operands in a row where no arguments are being listed. -/
  | adjacentOperands (found : String)
  | missingLeftOperand (operator : String)
  /-- Fewer than two operands for something that waits for two. -/
  | missingOperand (operator : String)
  | unopenedParenthesis
  | unclosedParenthesis
  | emptyParentheses
  | severalValuesInParentheses
  | wrongArgumentCount (fn : Fn) (count : Nat)
  | emptyExpression
  | severalValues
  /-- An open group asked for its value. -/
  | markerWithoutValue
  deriving DecidableEq, Repr

structure Fault where
  cause : Cause
  position : Option Int
  deriving DecidableEq, Repr

def Fault.located (position : Int) (cause : Cause) : Fault :=
  ⟨cause, some position⟩

def Cause.kind : Cause → ErrorKind
  | .unexpectedCharacter _ => .lexical
  | .malformedNumber _ => .malformedNumber
  | .unknownIdentifier _ => .unknownIdentifier
  | .notCalled _ _ => .parsing
  | .adjacentOperands _ => .missingOperator
  | .missingLeftOperand _ => .missingOperand
  | .missingOperand _ => .missingOperand
  | .unopenedParenthesis => .imbalancedParenthesis
  | .unclosedParenthesis => .imbalancedParenthesis
  | .emptyParentheses => .missingOperand
  | .severalValuesInParentheses => .missingOperator
  | .wrongArgumentCount _ _ => .argumentCount
  | .emptyExpression => .parsing
  | .severalValues => .missingOperator
  | .markerWithoutValue => .evaluation

def Cause.message : Cause → String
  | .unexpectedCharacter char =>
    "unexpected character " ++ quoted (String.singleton char)
  | .malformedNumber numeral => "malformed number " ++ quoted numeral
  | .unknownIdentifier name => "unknown identifier: " ++ name
  | .notCalled name _ => name ++ " must be followed by '('"
  | .adjacentOperands _ => "missing operator"
  | .missingLeftOperand operator =>
    "operator " ++ quoted operator ++ " is missing its left operand"
  | .missingOperand operator =>
    "operator " ++ quoted operator ++ " is missing an operand"
  | .unopenedParenthesis => "imbalanced parenthesis"
  | .unclosedParenthesis => "imbalanced parenthesis"
  | .emptyParentheses => "empty parentheses"
  | .severalValuesInParentheses => "missing operator inside parentheses"
  | .wrongArgumentCount fn _ =>
    fn.name ++ " takes " ++ toString fn.arity ++ " arguments"
  | .emptyExpression => "empty expression"
  | .severalValues => "missing operator"
  | .markerWithoutValue => "an open parenthesis marker has no value"

def Cause.received : Cause → Option String
  | .notCalled _ found => found
  | .adjacentOperands found => some found
  | .unopenedParenthesis => some "')'"
  | .wrongArgumentCount _ count => some (toString count)
  | _ => none

def Cause.expected : Cause → Option String
  | .malformedNumber _ => some "digits with at most one '.'"
  | .unknownIdentifier _ => some "'max' or 'min' or 'pi'"
  | .unclosedParenthesis => some "')'"
  | _ => none

def Cause.suggestion : Cause → Option String
  | .adjacentOperands _ => some "there is no implicit multiplication, write '*'"
  | _ => none

def Fault.report (fault : Fault) : Report where
  kind := fault.cause.kind
  message := fault.cause.message
  position := fault.position
  received := fault.cause.received
  expected := fault.cause.expected
  suggestion := fault.cause.suggestion

/-- What errors are told apart by: their kind, their place, and what was found there. -/
structure Fault.Reports (fault : Fault) (kind : ErrorKind) (position : Option Int)
    (received : Option String) : Prop where
  kind : fault.report.kind = kind
  position : fault.report.position = position
  received : fault.report.received = received

end InfixCalc

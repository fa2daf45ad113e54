import InfixCalc.Expr.Walk
import InfixCalc.Fault.Cause
import InfixCalc.Text

/-!
# Faults and defects

A failure is either a fault of the expression, which can be mended, or a
defect: an operation was asked for something that has no meaning, such as the
value of an absent operand or the operator named by an unknown text.  Defects
never arise from text that was scanned into tokens.
-/

namespace InfixCalc

/-- A leaf as messages show it. -/
def Leaf.listing : Leaf → String
  | .number value => recordText "Number" [("value", valueText value)]
  | .constant name value =>
    recordText "Constant" [("name", quoted name), ("value", valueText value)]
  | .marker position depth call =>
    recordText "OpenParen"
      [("position", toString position), ("depth", toString depth),
        ("call", flagText call)]
  | .absent => "None"

/-- The class of a value, as messages name it. -/
def valueClass : Value → String
  | none => "NoneType"
  | some _ => "float"

/-- How a function compares its arguments. -/
def Fn.comparison : Fn → String
  | .min => "<"
  | .max => ">"

inductive Defect
  | notExpression (leaf : Leaf)
  | notWritable (leaf : Leaf)
  | missingNumber
  /-- A function met an argument without a value. -/
  | notComparable (fn : Fn) (left right : Value)
  | unbalancedWalk
  /-- A reduction without anything to reduce. -/
  | nothingPending
  /-- A group stands where a token is needed for its `part`. -/
  | notToken (part : String)
  /-- A reduction by a token of another kind. -/
  | notOperator
  | unknownName (text : String)
  | tooFewOperands
  deriving DecidableEq

def Defect.message : Defect → String
  | .notExpression leaf => "not an expression node: " ++ leaf.listing
  | .notWritable leaf => "cannot unparse " ++ leaf.listing
  | .missingNumber => "must be real number, not " ++ valueClass none
  | .notComparable fn left right =>
    quoted fn.comparison ++ " not supported between instances of " ++
      quoted (valueClass left) ++ " and " ++ quoted (valueClass right)
  | .unbalancedWalk => "results and operands of a walk do not match"
  | .nothingPending => "pop from empty list"
  | .notToken part => "'OpenParen' object has no attribute " ++ quoted part
  | .notOperator => "'NoneType' object is not callable"
  | .unknownName text => quoted text
  | .tooFewOperands => "there are fewer than two operands"

inductive Failure
  | fault (found : Fault)
  | defect (found : Defect)
  deriving DecidableEq

def Failure.message : Failure → String
  | .fault found => found.report.text
  | .defect found => found.message

/-- A walk's own failure is a defect. -/
def Failure.ofWalk : WalkFailure Failure → Failure
  | .unbalanced => .defect .unbalancedWalk
  | .step failure => failure

end InfixCalc

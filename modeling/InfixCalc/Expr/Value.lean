import InfixCalc.Expr.Walk
import InfixCalc.Fault.Failure

/-!
# The value of an expression

Numbers and constants stand for themselves; inner nodes are computed by whatever
their operators and functions mean.  Every leaf is visited from left to right, and
the first one that stands for no value is the failure.
-/

namespace InfixCalc

def Leaf.value : Leaf → Except Failure Value
  | .number value => .ok value
  | .constant _ value => .ok value
  | .marker position _ _ => .error (.fault (.located position .markerWithoutValue))
  | .absent => .error (.defect (.notExpression .absent))

def notANumber : Float := Float.ofBits 0x7ff8000000000000

/-- Apply an operator or function to two values.  An operator takes a missing
value for NaN; a function has nothing to compare it with. -/
def Head.applyUnder (meaning : Meaning) (head : Head) (x y : Value) :
    Except Failure Value :=
  match head, x, y with
  | .operator _, _, _ =>
    .ok (some (meaning head (x.getD notANumber) (y.getD notANumber)))
  | .function _, some first, some second => .ok (some (meaning head first second))
  | .function fn, _, _ => .error (.defect (.notComparable fn x y))

/-- The value of an expression whose operators and functions compute `meaning`. -/
def Expr.valueUnder (meaning : Meaning) (expr : Expr) : Except Failure Value :=
  (expr.walk Leaf.value fun head _ _ x y => head.applyUnder meaning x y).mapError
    .ofWalk

def Expr.value (expr : Expr) : Except Failure Value :=
  expr.valueUnder Head.apply

/-- The word under which an expression is listed. -/
def Expr.kind : Expr → Except Failure Kind
  | .leaf (.number _) => .ok .number
  | .leaf (.constant _ _) => .ok .constant
  | .leaf (.marker _ _ _) => .ok .openParen
  | .leaf .absent => .error (.defect (.notExpression .absent))
  | .apply (.operator op) _ _ => .ok (.operator op)
  | .apply (.function _) _ _ => .ok .function

end InfixCalc

import InfixCalc.Expr.Walk
import InfixCalc.Fault.Failure

/-!
# Writing an expression

An expression is written with its operators between their operands and with
parentheses only around an operand that would otherwise be read differently.  How its
numbers are printed is left to a printer.
-/

namespace InfixCalc

/-- The text of a leaf, if `print` prints the numbers. -/
def Leaf.textWith (print : Float → String) : Leaf → Except Failure String
  | .number (some value) => .ok (print value)
  | .number none => .error (.defect .missingNumber)
  | .constant name _ => .ok name
  | leaf => .error (.defect (.notWritable leaf))

def Leaf.text (leaf : Leaf) : Except Failure String :=
  leaf.textWith Layout.literal.text

/-- Would `op` take the last operand away from an operator on its left? -/
def Op.breaksLeft (op : Op) (left : Expr) : Bool :=
  left.operator?.any fun inner => !inner.leftFirst op

/-- Would `op` take the first operand away from an operator on its right? -/
def Op.breaksRight (op : Op) (right : Expr) : Bool :=
  right.operator?.any fun inner => op.leftFirst inner

def enclosedIf (needed : Bool) (text : String) : String :=
  if needed then "(" ++ text ++ ")" else text

/-- A power is written without blanks. -/
def Op.between (op : Op) (left right : String) : String :=
  match op with
  | .pow => left ++ "^" ++ right
  | _ => left ++ " " ++ op.text ++ " " ++ right

def joinedText (head : Head) (left right : Expr) (leftText rightText : String) :
    String :=
  match head with
  | .function fn => fn.name ++ "(" ++ leftText ++ ", " ++ rightText ++ ")"
  | .operator op =>
    op.between (enclosedIf (op.breaksLeft left) leftText)
      (enclosedIf (op.breaksRight right) rightText)

/-- The text of an expression, if `print` prints the numbers. -/
def Expr.textWith (print : Float → String) (expr : Expr) : Except Failure String :=
  (expr.walk (Leaf.textWith print) fun head left right x y =>
    .ok (joinedText head left right x y)).mapError .ofWalk

def Expr.text (expr : Expr) : Except Failure String :=
  expr.textWith Layout.literal.text

end InfixCalc

import InfixCalc.Operator
import InfixCalc.Token.Basic

/-!
# Expressions

An expression applies operators and functions, two operands each, to leaves.
Numbers and constants are the leaves that stand for a value.  Markers of open
groups and absent operands are leaves as well, so that a tree nobody should have
built can still be named and refused.
-/

namespace InfixCalc

inductive Leaf
  | number (value : Value)
  | constant (name : String) (value : Value)
  | marker (position depth : Int) (call : Bool)
  | absent
  deriving DecidableEq

inductive Expr
  | leaf (leaf : Leaf)
  | apply (head : Head) (left right : Expr)
  deriving DecidableEq

@[match_pattern]
abbrev Expr.number (value : Value) : Expr := .leaf (.number value)

@[match_pattern]
abbrev Expr.constant (name : String) (value : Value) :
    Expr := .leaf (.constant name value)

/-- The operator at the root, if there is one. -/
def Expr.operator? : Expr → Option Op
  | .apply (.operator op) _ _ => some op
  | _ => none

/-- The precedence of the operator at the root. -/
def Expr.precedence? (expr : Expr) : Option Nat :=
  expr.operator?.map Op.precedence

end InfixCalc

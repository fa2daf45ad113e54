/-!
# Operators and functions

The five infix operators with their binding strength, the two functions, and
what they compute on doubles.  Operators follow IEEE 754 and never fail.
-/

namespace InfixCalc

inductive Associativity
  | left
  | right
  deriving DecidableEq, Repr

inductive Op
  | add
  | sub
  | mul
  | div
  | pow
  deriving DecidableEq, Repr

def Op.symbol : Op → Char
  | .add => '+'
  | .sub => '-'
  | .mul => '*'
  | .div => '/'
  | .pow => '^'

def Op.text (op : Op) : String :=
  String.ofList [op.symbol]

def Op.all : List Op :=
  [.add, .sub, .mul, .div, .pow]

def Op.ofSymbol? (symbol : Char) : Option Op :=
  Op.all.find? fun op => op.symbol = symbol

def Op.ofText? (text : String) : Option Op :=
  Op.all.find? fun op => op.text = text

/-- A larger number binds more tightly. -/
def Op.precedence : Op → Nat
  | .add => 2
  | .sub => 2
  | .mul => 3
  | .div => 3
  | .pow => 4

def Op.associativity : Op → Associativity
  | .pow => .right
  | _ => .left

/-- Does `left`, standing before `right`, take the operand between them? -/
def Op.leftFirst (left right : Op) : Bool :=
  right.precedence < left.precedence
    || (left.precedence == right.precedence && right.associativity == .left)

def Op.apply : Op → Float → Float → Float
  | .add, x, y => x + y
  | .sub, x, y => x - y
  | .mul, x, y => x * y
  | .div, x, y => x / y
  | .pow, x, y => x ^ y

inductive Fn
  | min
  | max
  deriving DecidableEq, Repr

def Fn.name : Fn → String
  | .min => "min"
  | .max => "max"

def Fn.all : List Fn :=
  [.min, .max]

def Fn.ofName? (name : String) : Option Fn :=
  Fn.all.find? fun fn => fn.name = name

/-- Both functions take two arguments. -/
def Fn.arity (_ : Fn) : Nat := 2

/-- The first argument is the answer only if it wins the comparison, so a NaN in
either place hands over the second one. -/
def Fn.apply : Fn → Float → Float → Float
  | .min, x, y => if x < y then x else y
  | .max, x, y => if y < x then x else y

/-- What stands at an inner node of an expression. -/
inductive Head
  | operator (op : Op)
  | function (fn : Fn)
  deriving DecidableEq, Repr

/-- What the operators and functions compute. -/
abbrev Meaning := Head → Float → Float → Float

def Head.apply : Meaning
  | .operator op => op.apply
  | .function fn => fn.apply

/-- The named constants and their values. -/
def constantValue? (name : String) : Option Float :=
  if name = "pi" then some 3.14159265359 else none

end InfixCalc

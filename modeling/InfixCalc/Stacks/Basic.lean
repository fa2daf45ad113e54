import InfixCalc.Expr.Value

/-!
# The two stacks of a reader

While tokens are read, finished operands wait on one stack and everything still
to be joined on another: operators, functions, and the groups that are open.  An
open group remembers how many operands were finished before it, and nothing inside
it touches those.  Both are lists with the latest entry first.
-/

namespace InfixCalc

structure Group where
  position : Int
  /-- The number of operands that belong to what surrounds the group. -/
  depth : Nat
  /-- Does the group hold the arguments of a function? -/
  call : Bool
  deriving DecidableEq, Repr

inductive Pending
  | token (token : Token)
  | group (group : Group)
  deriving DecidableEq

/-- One node folded into its value. -/
structure Folding where
  head : Head
  left : Expr
  right : Expr
  result : Value
  deriving DecidableEq

/-- The finished operands and the foldings made on the way to them, latest first. -/
structure Operands where
  values : List Expr
  foldings : List Folding
  deriving DecidableEq

structure Stacks where
  operands : Operands
  pending : List Pending
  deriving DecidableEq

def Stacks.empty : Stacks := ⟨⟨[], []⟩, []⟩

/-- What becomes of a node as soon as its operands are finished. -/
inductive Mode
  /-- It is kept as it is. -/
  | building
  /-- It is replaced by its value. -/
  | folding (meaning : Meaning)

/-- Fold with the usual arithmetic, or keep the whole expression. -/
def Mode.ofFold (fold : Bool) : Mode :=
  if fold then .folding Head.apply else .building

/-- The group that encloses what is read next. -/
def innermost : List Pending → Option Group
  | [] => none
  | .group group :: _ => some group
  | .token _ :: rest => innermost rest

/-- The number of operands that are out of reach behind the innermost group. -/
def floor (pending : List Pending) : Nat :=
  ((innermost pending).map Group.depth).getD 0

/-- The operator that a token means, if it is of an operator's kind. -/
def Token.operator (token : Token) : Except Failure (Option Op) :=
  match token.kind.isOperator, Op.ofText? token.text with
  | false, _ => .ok none
  | true, some op => .ok (some op)
  | true, none => .error (.defect (.unknownName token.text))

/-- The operator that waits for its right operand. -/
def pendingOperator : List Pending → Except Failure (Option Op)
  | .token token :: _ => token.operator
  | _ => .ok none

def Stacks.pushValue (state : Stacks) (value : Expr) : Stacks :=
  { state with
    operands := { state.operands with values := value :: state.operands.values } }

def Stacks.pushToken (state : Stacks) (token : Token) : Stacks :=
  { state with pending := .token token :: state.pending }

def Stacks.openGroup (state : Stacks) (position : Int) (call : Bool) : Stacks :=
  { state with
    pending :=
      .group ⟨position, state.operands.values.length, call⟩ :: state.pending }

/-- The stacks after an operation; a failure leaves them as they were when it
struck. -/
inductive Outcome
  | done (state : Stacks)
  | failed (failure : Failure) (state : Stacks)
  deriving DecidableEq

def Outcome.state : Outcome → Stacks
  | .done state => state
  | .failed _ state => state

def Outcome.failure? : Outcome → Option Failure
  | .done _ => none
  | .failed failure _ => some failure

def Outcome.andThen (outcome : Outcome) (next : Stacks → Outcome) : Outcome :=
  match outcome with
  | .done state => next state
  | .failed failure state => .failed failure state

end InfixCalc

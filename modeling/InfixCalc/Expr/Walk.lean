import InfixCalc.Expr.Basic

/-!
# Walking an expression without recursion

A walk works through an expression from left to right, operands before the node
that joins them.  It keeps its own list of tasks and its own stack of results, so
the depth of an expression does not matter.  The recursive fold beside it says
what a walk computes.
-/

namespace InfixCalc

universe u v

variable {ε : Type u} {α : Type v}

inductive Task
  | visit (expr : Expr)
  /-- Join the two latest results, which belong to `left` and `right`. -/
  | join (head : Head) (left right : Expr)

/-- A walk is unbalanced when a task finds too few results, or when the end does
not leave exactly one. -/
inductive WalkFailure (ε : Type u)
  | unbalanced
  | step (failure : ε)
  deriving DecidableEq

def Expr.weight : Expr → Nat
  | .leaf _ => 1
  | .apply _ left right => left.weight + right.weight + 2

def Task.weight : Task → Nat
  | .visit expr => expr.weight
  | .join _ _ _ => 1

/-- A visit is replaced by lighter tasks. -/
def totalWeight : List Task → Nat
  | [] => 0
  | task :: tasks => task.weight + totalWeight tasks

def walkTasks (leaf : Leaf → Except ε α)
    (branch : Head → Expr → Expr → α → α → Except ε α) :
    List Task → List α → Except (WalkFailure ε) (List α)
  | [], results => .ok results
  | .visit (.leaf found) :: tasks, results =>
    match leaf found with
    | .ok result => walkTasks leaf branch tasks (result :: results)
    | .error failure => .error (.step failure)
  | .visit (.apply head left right) :: tasks, results =>
    walkTasks leaf branch
      (.visit left :: .visit right :: .join head left right :: tasks) results
  | .join head left right :: tasks, second :: first :: results =>
    match branch head left right first second with
    | .ok result => walkTasks leaf branch tasks (result :: results)
    | .error failure => .error (.step failure)
  | .join _ _ _ :: _, _ => .error .unbalanced
termination_by tasks => totalWeight tasks
decreasing_by
  all_goals
    simp only [totalWeight, Task.weight, Expr.weight]
    omega

def Expr.walk (leaf : Leaf → Except ε α)
    (branch : Head → Expr → Expr → α → α → Except ε α) (expr : Expr) :
    Except (WalkFailure ε) α :=
  match walkTasks leaf branch [.visit expr] [] with
  | .ok [result] => .ok result
  | .ok _ => .error .unbalanced
  | .error failure => .error failure

/-- The left operand first, then the right one, then the node itself; the first
step to fail ends it. -/
def Expr.fold (leaf : Leaf → Except ε α)
    (branch : Head → Expr → Expr → α → α → Except ε α) :
    Expr → Except ε α
  | .leaf found => leaf found
  | .apply head left right => do
    let first ← left.fold leaf branch
    let second ← right.fold leaf branch
    branch head left right first second

end InfixCalc

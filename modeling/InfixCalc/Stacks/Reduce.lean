import InfixCalc.Stacks.Basic

/-!
# Reductions

A reduction takes the latest pending operator and joins the two latest operands
under it.  Operands behind the innermost group are out of reach, so an operator
that finds fewer than two in front of it lacks one.  Closing a group reduces what
is pending inside it and then hands over its operand, or the arguments to the
function in front of it.
-/

namespace InfixCalc

def Operands.replaceTop (operands : Operands) (mode : Mode) (head : Head) :
    Except Failure Operands :=
  match operands.values with
  | right :: left :: below =>
    match mode with
    | .building => .ok ⟨.apply head left right :: below, operands.foldings⟩
    | .folding meaning =>
      match (Expr.apply head left right).valueUnder meaning with
      | .ok result =>
        .ok ⟨.number result :: below, ⟨head, left, right, result⟩ :: operands.foldings⟩
      | .error failure => .error failure
  | _ => .error (.defect .tooFewOperands)

/-- Why a token that is no operator joins nothing.  While folding, operands are
evaluated before they are joined, so a failure of theirs comes first.  While
building, the node would be a call without a function.  No expression is one, so the
attempt to make it fails at once, and not only when the node comes to be used. -/
def Operands.refusal (operands : Operands) (mode : Mode) : Failure :=
  match mode, operands.values with
  | .folding meaning, right :: left :: _ =>
    match left.valueUnder meaning, right.valueUnder meaning with
    | .error failure, _ => failure
    | .ok _, .error failure => failure
    | .ok _, .ok _ => .defect .notOperator
  | _, _ => .defect .notOperator

/-- Join the two latest operands under a pending operator, if two of them lie
above the floor. -/
def Operands.reduceBy (operands : Operands) (mode : Mode) (token : Token)
    (floor : Nat) : Except Failure Operands :=
  if operands.values.length < floor + 2 then
    .error (.fault (.located token.position (.missingOperand token.text)))
  else
    match token.operator with
    | .ok (some op) => operands.replaceTop mode (.operator op)
    | .ok none => .error (operands.refusal mode)
    | .error failure => .error failure

def Stacks.reduce (state : Stacks) (mode : Mode) : Outcome :=
  match state.pending with
  | [] => .failed (.defect .nothingPending) state
  | .group _ :: rest =>
    let part := if state.operands.values.length < floor rest + 2 then "text" else "op"
    .failed (.defect (.notToken part)) ⟨state.operands, rest⟩
  | .token token :: rest =>
    match state.operands.reduceBy mode token (floor rest) with
    | .ok operands => .done ⟨operands, rest⟩
    | .error failure => .failed failure ⟨state.operands, rest⟩

/-- Reduce as long as the latest pending entry is a token that yields. -/
def reduceWhile (mode : Mode) (yields : Token → Except Failure Bool) :
    List Pending → Operands → Outcome
  | .token token :: rest, operands =>
    match yields token with
    | .ok true =>
      match operands.reduceBy mode token (floor rest) with
      | .ok reduced => reduceWhile mode yields rest reduced
      | .error failure => .failed failure ⟨operands, rest⟩
    | .ok false => .done ⟨operands, .token token :: rest⟩
    | .error failure => .failed failure ⟨operands, .token token :: rest⟩
  | pending, operands => .done ⟨operands, pending⟩

/-- Reduce everything pending inside the innermost group. -/
def Stacks.reduceGroup (state : Stacks) (mode : Mode) : Outcome :=
  reduceWhile mode (fun _ => .ok true) state.pending state.operands

/-- Does a pending token take the operand before an incoming operator?  What the
incoming one means matters only if an operator is pending. -/
def Token.yieldsTo (incoming pending : Token) : Except Failure Bool :=
  match pending.operator, incoming.operator with
  | .error failure, _ => .error failure
  | .ok none, _ => .ok false
  | .ok (some _), .error failure => .error failure
  | .ok (some left), .ok right => .ok (right.any fun op => left.leftFirst op)

/-- Reduce every operator that takes the operand before an incoming one. -/
def Stacks.reduceBefore (state : Stacks) (mode : Mode) (incoming : Token) : Outcome :=
  reduceWhile mode incoming.yieldsTo state.pending state.operands

/-- A plain group has exactly one operand, which is its value. -/
def Stacks.closePlain (state : Stacks) (group : Group) : Outcome :=
  match state.operands.values.length - group.depth with
  | 0 => .failed (.fault (.located group.position .emptyParentheses)) state
  | 1 => .done state
  | _ => .failed (.fault (.located group.position .severalValuesInParentheses)) state

/-- The operands of a call are the arguments of its function. -/
def Stacks.closeCall (state : Stacks) (mode : Mode) (group : Group) : Outcome :=
  match state.pending with
  | .token token :: rest =>
    let called : Stacks := { state with pending := rest }
    match Fn.ofName? token.text with
    | none => .failed (.defect (.unknownName token.text)) called
    | some fn =>
      let count := state.operands.values.length - group.depth
      if count = fn.arity then
        match state.operands.replaceTop mode (.function fn) with
        | .ok operands => .done ⟨operands, rest⟩
        | .error failure => .failed failure called
      else
        .failed (.fault (.located token.position (.wrongArgumentCount fn count))) called
  | .group _ :: rest =>
    .failed (.defect (.notToken "text")) { state with pending := rest }
  | [] => .failed (.defect .nothingPending) state

/-- Close the innermost group by the parenthesis at `position`. -/
def Stacks.closeGroup (state : Stacks) (mode : Mode) (position : Int) : Outcome :=
  (state.reduceGroup mode).andThen fun reduced =>
    match reduced.pending with
    | .group group :: rest =>
      let closed : Stacks := { reduced with pending := rest }
      if group.call then closed.closeCall mode group else closed.closePlain group
    | _ => .failed (.fault (.located position .unopenedParenthesis)) reduced

/-- A single operation on the stacks. -/
inductive Move
  | value (value : Expr)
  | token (token : Token)
  | openGroup (position : Int) (call : Bool)
  | reduce
  | reduceGroup
  | closeGroup (position : Int)

def Stacks.perform (state : Stacks) (mode : Mode) : Move → Outcome
  | .value value => .done (state.pushValue value)
  | .token token => .done (state.pushToken token)
  | .openGroup position call => .done (state.openGroup position call)
  | .reduce => state.reduce mode
  | .reduceGroup => state.reduceGroup mode
  | .closeGroup position => state.closeGroup mode position

end InfixCalc

import InfixCalc.Expr.Reading
import InfixCalc.Proofs.Grammar

/-!
# Nested groups

The two stacks of a reader hold, mixed together, one piece of every group that is
open: the operators waiting in it, their left operands, and the arguments of a call
that are finished.  A nest keeps these pieces apart.  Only a call has a place for
arguments, so a plain group cannot hold more than one operand.

A nest reads tokens as the reader does, and its stacks are those of the reader.
-/

namespace InfixCalc

/-- An operator with its left operand, waiting for its right operand. -/
structure Frame where
  left : Expr
  token : Token
  op : Op
  means : token.role? = some (.operator op)

def Frame.join (right : Expr) (frame : Frame) : Expr :=
  .apply (.operator frame.op) frame.left right

/-- The expression made of the frames, latest first, and an operand behind them. -/
def joinAll (frames : List Frame) (last : Expr) : Expr :=
  frames.foldl Frame.join last

/-- Every frame takes the operand in front of its own, and `given` is the first of
them. -/
def shifted (given : Expr) : Frame → List Frame → List Frame
  | frame, [] => [{ frame with left := given }]
  | frame, next :: frames =>
    { frame with left := next.left } :: shifted given next frames

/-- With an operand in front of them, the frames take the operands one place further
on, and `hole` takes the last of them. -/
def hang (hole : Expr → Expr) : List Frame → Expr → Expr
  | [], given => hole given
  | frame :: frames, given =>
    hang (fun operand => .apply (.operator frame.op) operand (hole frame.left))
      frames given

theorem joinAll_shifted (given : Expr) (frame : Frame) (frames : List Frame)
    (last : Expr) :
    joinAll (shifted given frame frames) last =
      hang (fun operand => .apply (.operator frame.op) operand last) frames given := by
  induction frames generalizing frame last with
  | nil => rfl
  | cons next frames ih => exact ih next _

theorem hang_append (hole : Expr → Expr) (frames : List Frame) (frame : Frame)
    (given : Expr) :
    hang hole (frames ++ [frame]) given =
      .apply (.operator frame.op) given (hang hole frames frame.left) := by
  induction frames generalizing hole with
  | nil => rfl
  | cons next frames ih => exact ih _

theorem joinAll_append (inner frames : List Frame) (last : Expr) :
    joinAll (inner ++ frames) last = joinAll frames (joinAll inner last) :=
  List.foldl_append

def oldest : Frame → List Frame → Frame
  | frame, [] => frame
  | _, next :: frames => oldest next frames

/-- What stands around the tokens of a group. -/
inductive Opener
  | plain (position : Int)
  | call (function : Token) (fn : Fn) (means : function.role? = some (.function fn))
      (position : Int) (arguments : List Expr)

def Opener.position : Opener → Int
  | .plain position => position
  | .call _ _ _ position _ => position

/-- The finished arguments, latest first. -/
def Opener.arguments : Opener → List Expr
  | .plain _ => []
  | .call _ _ _ _ arguments => arguments

def Opener.isCall : Opener → Bool
  | .plain _ => false
  | .call _ _ _ _ _ => true

/-- An open group and the frames in front of it. -/
structure Enclosure where
  opener : Opener
  frames : List Frame

/-- What has just been read inside the innermost group. -/
inductive Focus
  /-- Nothing, so that an operand has to come. -/
  | operand
  /-- A function, so that its parenthesis has to come. -/
  | function (token : Token) (fn : Fn) (means : token.role? = some (.function fn))
  | complete (expr : Expr)

def Focus.isFunction : Focus → Bool
  | .function _ _ _ => true
  | _ => false

/-- Enclosures and frames are listed from the inside out. -/
structure Nest where
  focus : Focus
  frames : List Frame
  outer : List Enclosure

def Nest.start : Nest := ⟨.operand, [], []⟩

def innerArguments : List Enclosure → List Expr
  | [] => []
  | enclosure :: _ => enclosure.opener.arguments

/-- The operands of the innermost group, latest first, when everything that waits in
it is joined. -/
def Nest.settled (nest : Nest) : Except Fault (List Expr) :=
  let arguments := innerArguments nest.outer
  match nest.focus, nest.frames, arguments with
  | .complete last, frames, _ => .ok (joinAll frames last :: arguments)
  | _, [], _ => .ok arguments
  | _, frame :: frames, given :: others =>
    .ok (joinAll (shifted given frame frames) frame.left :: others)
  | _, frame :: frames, [] =>
    let lacking := (oldest frame frames).token
    .error (.located lacking.position (.missingOperand lacking.text))

/-- The nest once the operands of its innermost group are all of it. -/
def Nest.closeWith (operands : List Expr) (outer : List Enclosure) (position : Int) :
    Except Fault Nest :=
  match outer with
  | [] => .error (.located position .unopenedParenthesis)
  | ⟨.plain start, around⟩ :: rest =>
    match operands with
    | [] => .error (.located start .emptyParentheses)
    | [expr] => .ok ⟨.complete expr, around, rest⟩
    | _ => .error (.located start .severalValuesInParentheses)
  | ⟨.call function fn _ _ _, around⟩ :: rest =>
    match operands with
    | [second, first] =>
      .ok ⟨.complete (.apply (.function fn) first second), around, rest⟩
    | _ => .error (.located function.position (.wrongArgumentCount fn operands.length))

def Nest.close (nest : Nest) (position : Int) : Except Fault Nest :=
  nest.settled.bind fun operands => Nest.closeWith operands nest.outer position

/-- Read a token where an operand has to come. -/
def Nest.readOperand (nest : Nest) (token : Token) (role : Role)
    (means : token.role? = some role) : Except Fault Nest :=
  match role, means with
  | .operand expr, _ => .ok { nest with focus := .complete expr }
  | .function fn, means => .ok { nest with focus := .function token fn means }
  | .opening, _ =>
    .ok ⟨.operand, [], ⟨.plain token.position, nest.frames⟩ :: nest.outer⟩
  | .operator _, _ => .error (.located token.position (.missingLeftOperand token.text))
  | .closing, _ => nest.close token.position

/-- The nest with the operand `last` as the end of an argument, if there can be one. -/
def Nest.nextArgument? (nest : Nest) (last : Expr) : Option Nest :=
  match nest.outer with
  | ⟨.call function fn means position arguments, around⟩ :: rest =>
    let opener :=
      .call function fn means position (joinAll nest.frames last :: arguments)
    some ⟨.operand, [], ⟨opener, around⟩ :: rest⟩
  | _ => none

/-- Read a token behind the operand `last`.  An operator takes what it leaves to no
frame as its left operand; the first token of another operand ends an argument. -/
def Nest.readBehind (nest : Nest) (last : Expr) (token : Token) (role : Role)
    (means : token.role? = some role) : Except Fault Nest :=
  match role, means with
  | .operator op, means =>
    let taken := nest.frames.takeWhile fun frame => frame.op.leftFirst op
    let kept := nest.frames.dropWhile fun frame => frame.op.leftFirst op
    .ok ⟨.operand, ⟨joinAll taken last, token, op, means⟩ :: kept, nest.outer⟩
  | .closing, _ => nest.close token.position
  | role, means =>
    match nest.nextArgument? last with
    | some next => next.readOperand token role means
    | none => .error (.located token.position (.adjacentOperands token.text))

theorem Nest.readBehind_of_starts (nest : Nest) (last : Expr) {token : Token}
    {role : Role} (means : token.role? = some role)
    (hstarts : role.startsOperand = true) :
    nest.readBehind last token role means =
      match nest.nextArgument? last with
      | some next => next.readOperand token role means
      | none => .error (.located token.position (.adjacentOperands token.text)) := by
  cases role with
  | operand expr => rfl
  | function fn => rfl
  | opening => rfl
  | operator op => cases hstarts
  | closing => cases hstarts

/-- Behind an operand stands an operator, the end of its group or another argument. -/
theorem Nest.readBehind_eq_ok {nest next : Nest} {last : Expr} {token : Token}
    {role : Role} {means : token.role? = some role}
    (hread : nest.readBehind last token role means = .ok next) :
    (∃ op, ∃ known : token.role? = some (.operator op), role = .operator op ∧
        next = ⟨.operand,
          ⟨joinAll (nest.frames.takeWhile fun frame => frame.op.leftFirst op) last,
              token, op,
              known⟩ :: nest.frames.dropWhile fun frame => frame.op.leftFirst op,
          nest.outer⟩) ∨
      (role = .closing ∧ nest.close token.position = .ok next) ∨
      ∃ between, nest.nextArgument? last = some between ∧
        between.readOperand token role means = .ok next := by
  have hargument (hstarts : role.startsOperand = true) :
      ∃ between, nest.nextArgument? last = some between ∧
        between.readOperand token role means = .ok next := by
    rw [Nest.readBehind_of_starts _ _ means hstarts] at hread
    split at hread
    · rename_i between hbetween
      exact ⟨between, hbetween, hread⟩
    · cases hread
  cases role with
  | operand expr => exact .inr (.inr (hargument rfl))
  | function fn => exact .inr (.inr (hargument rfl))
  | opening => exact .inr (.inr (hargument rfl))
  | closing => exact .inr (.inl ⟨rfl, hread⟩)
  | operator op =>
      cases hread
      exact .inl ⟨op, means, rfl, rfl⟩

def Nest.read (nest : Nest) (token : Token) (role : Role)
    (means : token.role? = some role) : Except Fault Nest :=
  match nest.focus with
  | .operand => nest.readOperand token role means
  | .complete last => nest.readBehind last token role means
  | .function function fn known =>
    match role with
    | .opening =>
      let opener := .call function fn known token.position []
      .ok ⟨.operand, [], ⟨opener, nest.frames⟩ :: nest.outer⟩
    | _ => .error (.located token.position (.notCalled function.text (some token.text)))

/-- The whole expression, if these are the operands of the innermost group. -/
def Nest.concludeWith (operands : List Expr) (outer : List Enclosure) :
    Except Fault Expr :=
  match outer with
  | enclosure :: _ => .error (.located enclosure.opener.position .unclosedParenthesis)
  | [] =>
    match operands with
    | [] => .error ⟨.emptyExpression, none⟩
    | [expr] => .ok expr
    | _ => .error ⟨.severalValues, none⟩

/-- What the nest is at the end of the tokens. -/
def Nest.finish (nest : Nest) : Except Fault Expr :=
  match nest.focus with
  | .function function _ _ =>
    .error (.located function.position (.notCalled function.text none))
  | _ => nest.settled.bind fun operands => Nest.concludeWith operands nest.outer

/-! ## The stacks of a nest -/

def Focus.values : Focus → List Expr
  | .complete expr => [expr]
  | _ => []

def Focus.pending : Focus → List Pending
  | .function token _ _ => [.token token]
  | _ => []

def lefts (frames : List Frame) : List Expr :=
  frames.map Frame.left

def waiting (frames : List Frame) : List Pending :=
  frames.map fun frame => .token frame.token

def outerValues : List Enclosure → List Expr
  | [] => []
  | ⟨opener, frames⟩ :: rest => opener.arguments ++ (lefts frames ++ outerValues rest)

/-- The operands that are out of reach inside the innermost group. -/
def coveredValues : List Enclosure → List Expr
  | [] => []
  | ⟨_, frames⟩ :: rest => lefts frames ++ outerValues rest

def Opener.pending (depth : Nat) : Opener → List Pending
  | .plain position => [.group ⟨position, depth, false⟩]
  | .call function _ _ position _ => [.group ⟨position, depth, true⟩, .token function]

def outerPending : List Enclosure → List Pending
  | [] => []
  | ⟨opener, frames⟩ :: rest =>
    opener.pending (lefts frames ++ outerValues rest).length
      ++ (waiting frames ++ outerPending rest)

def Nest.stacks (nest : Nest) : Stacks where
  operands := ⟨nest.focus.values ++ (lefts nest.frames ++ outerValues nest.outer), []⟩
  pending := nest.focus.pending ++ (waiting nest.frames ++ outerPending nest.outer)

end InfixCalc

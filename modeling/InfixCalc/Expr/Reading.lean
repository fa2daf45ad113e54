import InfixCalc.Stacks.Reduce
import InfixCalc.Token.Scan

/-!
# Reading an expression

Tokens are taken one after the other.  An operator first reduces everything in
front of it that binds at least as tightly on that side; a parenthesis opens or
closes a group; two operands in a row separate the arguments of a call and are a
fault anywhere else.  The first fault ends the reading and leaves the tokens behind
it unread.
-/

namespace InfixCalc

structure Reading where
  result : Except Failure Expr
  unread : List Token
  /-- The foldings in the order in which they were made. -/
  foldings : List Folding

/-- The function that waits for its open parenthesis. -/
def uncalled? (previous : Option Token) : Option Token :=
  previous.filter fun token => token.kind = .function

def endsOperand (previous : Option Token) : Bool :=
  previous.any fun token => token.kind.endsOperand

/-- A function has to be followed by an open parenthesis. -/
def uncalledFault? (previous : Option Token) (token : Token) : Option Fault :=
  match uncalled? previous with
  | none => none
  | some function =>
    if token.kind = .openParen then none
    else some (.located token.position (.notCalled function.text (some token.text)))

/-- Two operands in a row end an argument inside a call. -/
def separateOperands (mode : Mode) (previous : Option Token) (token : Token)
    (state : Stacks) : Outcome :=
  if endsOperand previous && token.kind.startsOperand then
    if (innermost state.pending).any Group.call then state.reduceGroup mode
    else .failed (.fault (.located token.position (.adjacentOperands token.text))) state
  else .done state

def placeToken (mode : Mode) (previous : Option Token) (token : Token)
    (state : Stacks) : Outcome :=
  match token.kind with
  | .number => .done (state.pushValue (.number token.value))
  | .constant => .done (state.pushValue (.constant token.text token.value))
  | .function => .done (state.pushToken token)
  | .operator _ =>
    if endsOperand previous then
      (state.reduceBefore mode token).andThen fun reduced =>
        .done (reduced.pushToken token)
    else
      .failed (.fault (.located token.position (.missingLeftOperand token.text))) state
  | .openParen => .done (state.openGroup token.position (uncalled? previous).isSome)
  | .closeParen => state.closeGroup mode token.position

def readToken (mode : Mode) (previous : Option Token) (token : Token) (state : Stacks) :
    Outcome :=
  match uncalledFault? previous token with
  | some fault => .failed (.fault fault) state
  | none =>
    (separateOperands mode previous token state).andThen
      (placeToken mode previous token)

/-- With nothing pending the only operand left is the expression. -/
def conclude (state : Stacks) : Except Failure Expr :=
  match state.pending, state.operands.values with
  | .group group :: _, _ =>
    .error (.fault (.located group.position .unclosedParenthesis))
  | _, [] => .error (.fault ⟨.emptyExpression, none⟩)
  | _, [expr] => .ok expr
  | _, _ => .error (.fault ⟨.severalValues, none⟩)

def finishReading (mode : Mode) (previous : Option Token) (state : Stacks) : Reading :=
  match uncalled? previous with
  | some function =>
    ⟨.error (.fault (.located function.position (.notCalled function.text none))), [],
      state.operands.foldings.reverse⟩
  | none =>
    match state.reduceGroup mode with
    | .done reduced => ⟨conclude reduced, [], reduced.operands.foldings.reverse⟩
    | .failed failure reduced => ⟨.error failure, [], reduced.operands.foldings.reverse⟩

def readOn (mode : Mode) (previous : Option Token) (state : Stacks) :
    List Token → Reading
  | [] => finishReading mode previous state
  | token :: rest =>
    match readToken mode previous token state with
    | .done next => readOn mode (some token) next rest
    | .failed failure left => ⟨.error failure, rest, left.operands.foldings.reverse⟩

def readTokens (mode : Mode) (tokens : List Token) : Reading :=
  readOn mode none .empty tokens

/-- The expression a text writes. -/
def readText (mode : Mode) (text : String) : Except Failure Expr :=
  match tokenize text with
  | .ok tokens => (readTokens mode tokens).result
  | .error fault => .error (.fault fault)

/-- The value of the expression a text writes. -/
def textValue (mode : Mode) (text : String) : Except Failure Value :=
  match readText mode text with
  | .ok expr => expr.value
  | .error failure => .error failure

end InfixCalc

import InfixCalc.Double.Text
import InfixCalc.Fault.Cause
import InfixCalc.Text
import InfixCalc.Token.Basic

/-!
# From text to tokens

Digits and points gather in one run, letters in another, and a run becomes a
token when something else ends it.  Operators and parentheses are tokens of their
own; commas and white space only end runs.  An illegal character is reported when
it is met, before the run it interrupts has been looked at.
-/

namespace InfixCalc

inductive RunKind
  | numeral
  | word
  deriving DecidableEq, Repr

inductive CharClass
  | symbol (kind : Kind)
  | separator
  | runMember (kind : RunKind)
  | illegal
  deriving DecidableEq, Repr

def symbolKind? (char : Char) : Option Kind :=
  if char = '(' then some .openParen
  else if char = ')' then some .closeParen
  else (Op.ofSymbol? char).map Kind.operator

def isSeparator (char : Char) : Bool :=
  char = ',' || isBlank char

def isNumeralChar (char : Char) : Bool :=
  char = '.' || char.isDigit

def classify (char : Char) : CharClass :=
  match symbolKind? char with
  | some kind => .symbol kind
  | none =>
    if isSeparator char then .separator
    else if isNumeralChar char then .runMember .numeral
    else if char.isAlpha then .runMember .word
    else .illegal

def numeralToken (chars : List Char) (position : Int) : Except Fault Token :=
  let text := String.ofList chars
  match numeralValue? chars with
  | some value => .ok ⟨.number, text, position, some value⟩
  | none => .error (.located position (.malformedNumber text))

def wordToken (chars : List Char) (position : Int) : Except Fault Token :=
  let text := String.ofList chars
  match Fn.ofName? text, constantValue? text with
  | some _, _ => .ok ⟨.function, text, position, none⟩
  | none, some value => .ok ⟨.constant, text, position, some value⟩
  | none, none => .error (.located position (.unknownIdentifier text))

def RunKind.token : RunKind → List Char → Int → Except Fault Token
  | .numeral => numeralToken
  | .word => wordToken

/-- A run that may still grow, with its latest character first. -/
structure OpenRun where
  kind : RunKind
  start : Nat
  reversed : List Char
  deriving DecidableEq, Repr

def OpenRun.token (run : OpenRun) : Except Fault Token :=
  run.kind.token run.reversed.reverse run.start

/-- The tokens so far, latest first, and the run that is being read. -/
structure ScanState where
  reversed : List Token
  run : Option OpenRun
  deriving DecidableEq

def ScanState.start : ScanState := ⟨[], none⟩

/-- End the run that is being read. -/
def ScanState.flush (state : ScanState) : Except Fault ScanState :=
  match state.run with
  | none => .ok state
  | some run =>
    match run.token with
    | .ok token => .ok ⟨token :: state.reversed, none⟩
    | .error fault => .error fault

/-- Take up one more character of a run, after ending a run of the other kind. -/
def ScanState.gather (state : ScanState) (kind : RunKind) (position : Nat)
    (char : Char) : Except Fault ScanState :=
  match state.run with
  | some run =>
    if run.kind = kind then
      .ok { state with run := some { run with reversed := char :: run.reversed } }
    else state.flush.map fun flushed =>
      { flushed with run := some ⟨kind, position, [char]⟩ }
  | none => .ok { state with run := some ⟨kind, position, [char]⟩ }

def ScanState.read (state : ScanState) (position : Nat) (char : Char) :
    Except Fault ScanState :=
  match classify char with
  | .symbol kind =>
    let token : Token := ⟨kind, String.ofList [char], position, none⟩
    state.flush.map fun flushed => ⟨token :: flushed.reversed, none⟩
  | .separator => state.flush
  | .runMember kind => state.gather kind position char
  | .illegal => .error (.located position (.unexpectedCharacter char))

def scanFrom (state : ScanState) (position : Nat) : List Char → Except Fault ScanState
  | [] => .ok state
  | char :: rest =>
    match state.read position char with
    | .ok next => scanFrom next (position + 1) rest
    | .error fault => .error fault

def scan (chars : List Char) : Except Fault (List Token) :=
  match scanFrom .start 0 chars with
  | .ok state => state.flush.map fun flushed => flushed.reversed.reverse
  | .error fault => .error fault

/-- The tokens of a text, all of them or the first fault. -/
def tokenize (text : String) : Except Fault (List Token) :=
  scan text.toList

end InfixCalc

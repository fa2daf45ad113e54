import InfixCalc.Expr.Reading

/-!
# Switches and the journal

Two switches steer a run: whether to keep a journal of what is done, and whether
to fold an expression while it is read.  Each is set by a variable of the
environment; an unset variable leaves its default.

With debugging on, a run tells what it was asked to do, how many tokens it found,
and every folding it made.  Nothing is told of a reduction that only builds.
-/

namespace InfixCalc

/-! ## Switches -/

structure Settings where
  debug : Bool
  fold : Bool
  deriving DecidableEq, Repr

/-- The words that turn a switch off.  They hold neither `k` nor `i`, the only
letters that are small forms of something outside ASCII, so comparing after
lowering ASCII letters compares after lowering all. -/
def offWords : List (List Char) :=
  ["", "0", "false", "no", "off"].map String.toList

def isOn (text : String) : Bool :=
  !offWords.contains ((withoutOuterBlanks text.toList).map Char.toLower)

def Settings.ofVariables (lookup : String → Option String) : Settings where
  debug := ((lookup "YARDCALC_DEBUG").map isOn).getD false
  fold := ((lookup "YARDCALC_FOLD").map isOn).getD true

/-! ## The journal -/

def Head.listing : Head → String
  | .operator op => "op(" ++ quoted op.text ++ ")"
  | .function fn => "fn(" ++ quoted fn.name ++ ")"

def Expr.listing : Expr → String
  | .leaf found => found.listing
  | .apply head left right =>
    head.listing ++ "(" ++ left.listing ++ ", " ++ right.listing ++ ")"

def Settings.listing (settings : Settings) : String :=
  recordText "Settings" [("debug", flagText settings.debug),
    ("fold", flagText settings.fold)]

def Folding.listing (folding : Folding) : String :=
  (Expr.apply folding.head folding.left folding.right).listing ++ " -> "
    ++ valueText folding.result

inductive Entry
  | started (command : String) (expression : String) (settings : Settings)
  | scanned (count : Nat) (text : String)
  | folded (folding : Folding)

def Entry.line : Entry → String
  | .started command expression settings =>
    "yard_cli: " ++ command ++ " " ++ quoted expression ++ " with " ++ settings.listing
  | .scanned count text =>
    "yard_lexer: scanned " ++ toString count ++ " tokens from " ++ quoted text
  | .folded folding => "yard_parser: fold " ++ folding.listing

/-- A reading of a text with its journal.  Text that cannot be scanned leaves no
entry. -/
structure Session where
  reading : Reading
  journal : List Entry

def readTextLogged (mode : Mode) (text : String) : Session :=
  match tokenize text with
  | .ok tokens =>
    let reading := readTokens mode tokens
    ⟨reading, .scanned tokens.length text :: reading.foldings.map .folded⟩
  | .error fault => ⟨⟨.error (.fault fault), [], []⟩, []⟩

end InfixCalc

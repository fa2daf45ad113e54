/-!
# Reports

A report is an error as its reader sees it: what went wrong, where, and what
was found or wanted instead.  Kinds of error form a small tree under one general
kind.
-/

namespace InfixCalc

inductive ErrorKind
  | general
  | lexical
  | malformedNumber
  | unknownIdentifier
  | parsing
  | imbalancedParenthesis
  | missingOperand
  | missingOperator
  | argumentCount
  | evaluation
  deriving DecidableEq, Repr

def ErrorKind.parent? : ErrorKind → Option ErrorKind
  | .general => none
  | .malformedNumber => some .lexical
  | .imbalancedParenthesis => some .parsing
  | .missingOperand => some .parsing
  | .missingOperator => some .parsing
  | .argumentCount => some .parsing
  | _ => some .general

/-- The kind and all kinds above it, the general one last.  No kind lies more
than two steps below the general one. -/
def ErrorKind.lineage (kind : ErrorKind) : List ErrorKind :=
  match kind.parent? with
  | none => [kind]
  | some parent => kind :: parent :: parent.parent?.toList

structure Report where
  kind : ErrorKind
  message : String
  position : Option Int
  received : Option String
  expected : Option String
  suggestion : Option String
  deriving DecidableEq, Repr

/-- A label and the text after it, unless there is no text. -/
def labelled (label : String) (text : Option String) : List String :=
  match text with
  | none => []
  | some found => if found = "" then [] else [label ++ found]

def Report.text (report : Report) : String :=
  let parts :=
    report.message :: labelled "at position " (report.position.map toString)
      ++ labelled "received " report.received ++ labelled "expected " report.expected
  let suggestion :=
    match report.suggestion with
    | none => ""
    | some found => if found = "" then "" else " (" ++ found ++ ")"
  ", ".intercalate parts ++ suggestion

end InfixCalc

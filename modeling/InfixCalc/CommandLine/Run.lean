import InfixCalc.CommandLine.Arguments
import InfixCalc.Expr.Text
import InfixCalc.Journal

/-!
# Running a command

A command answers with lines for standard output or fails with one line for
standard error.  With debugging on, the journal goes to standard error before that
line.
-/

namespace InfixCalc

/-- What a run leaves behind. -/
structure Transcript where
  exitCode : Nat
  stdout : String
  stderr : String
  deriving DecidableEq, Repr

/-- The answer of a command together with its journal. -/
structure Performance where
  answer : Except Failure (List String)
  journal : List Entry

def evalCommand (mode : Mode) (expression : String) : Performance :=
  let session := readTextLogged mode expression
  ⟨(session.reading.result.bind Expr.value).map fun value => [valueText value],
    session.journal⟩

def tokensCommand (expression : String) : Performance :=
  match tokenize expression with
  | .ok tokens => ⟨.ok (tokens.map Token.listing), [.scanned tokens.length expression]⟩
  | .error fault => ⟨.error (.fault fault), []⟩

def astCommand (expression : String) : Performance :=
  let session := readTextLogged .building expression
  ⟨(session.reading.result.bind Expr.text).map fun text => [text], session.journal⟩

def Command.perform (command : Command) (mode : Mode) (expression : String) :
    Performance :=
  match command with
  | .eval => evalCommand mode expression
  | .tokens => tokensCommand expression
  | .ast => astCommand expression

def linesText (lines : List String) : String :=
  String.join (lines.map fun line => line ++ "\n")

/-- Switches on the command line override those of the environment. -/
def Invocation.settings (invocation : Invocation) (environment : Settings) :
    Settings where
  debug := invocation.debug || environment.debug
  fold := !invocation.lazy && environment.fold

def Invocation.run (invocation : Invocation) (environment : Settings) : Transcript :=
  let settings := invocation.settings environment
  let performance :=
    invocation.command.perform (.ofFold settings.fold) invocation.expression
  let journal :=
    if settings.debug then
      Entry.started invocation.command.name invocation.expression settings ::
        performance.journal
    else []
  let log := journal.map Entry.line
  match performance.answer with
  | .ok lines => ⟨0, linesText lines, linesText log⟩
  | .error failure => ⟨1, "", linesText (log ++ ["error: " ++ failure.message])⟩

/-- A summary in place of the text that a reader of command lines writes for help and
for misuse.  That text is not modelled: only the exit code and the stream it goes to
are. -/
def usageText : String :=
  linesText
    ["usage: yardcalc [-h] [--debug] [--lazy] COMMAND EXPRESSION",
      "commands: eval, tokens, ast"]

def Request.transcript (request : Request) (environment : Settings) : Transcript :=
  match request with
  | .run invocation => invocation.run environment
  | .help => ⟨0, usageText, ""⟩
  | .misuse => ⟨2, "", usageText⟩

end InfixCalc

import InfixCalc.Text

/-!
# Arguments of the command line

Switches come first, then a command, then the one expression it works on.  An
argument with a leading dash is an option unless it is a lone dash, looks like a
negative number or contains a space; a double dash says that no options follow.  A
long option may be cut short as long as it stays the only one that fits.
-/

namespace InfixCalc

inductive Command
  | eval
  | tokens
  | ast
  deriving DecidableEq, Repr

def Command.name : Command → String
  | .eval => "eval"
  | .tokens => "tokens"
  | .ast => "ast"

def Command.ofName? (name : String) : Option Command :=
  [Command.eval, .tokens, .ast].find? fun command => command.name = name

inductive Switch
  | help
  | debug
  | lazy
  deriving DecidableEq, Repr

def Switch.name : Switch → List Char
  | .help => ['-', '-', 'h', 'e', 'l', 'p']
  | .debug => ['-', '-', 'd', 'e', 'b', 'u', 'g']
  | .lazy => ['-', '-', 'l', 'a', 'z', 'y']

structure Invocation where
  debug : Bool
  lazy : Bool
  command : Command
  expression : String
  deriving DecidableEq, Repr

inductive Request
  | run (invocation : Invocation)
  | help
  | misuse
  deriving DecidableEq, Repr

inductive Argument
  | operand
  | switch (switch : Switch)
  /-- A switch with a value, which none takes. -/
  | valued
  /-- An option that fits several switches. -/
  | ambiguous
  | unknown
  deriving DecidableEq, Repr

/-- A dash has gone before.  A line break may end the number. -/
def looksNumeric (chars : List Char) : Bool :=
  let digits := if chars.getLast? = some '\n' then chars.dropLast else chars
  let fraction := (digits.dropWhile isDecimalDigit).drop 1
  (!digits.isEmpty && digits.all isDecimalDigit)
    || ((digits.dropWhile isDecimalDigit).head? = some '.' && !fraction.isEmpty
      && fraction.all isDecimalDigit)

/-- Long options are told apart by what stands before an equals sign. -/
def longOption (switches : List Switch) (arg : List Char) : Argument :=
  let name := arg.takeWhile (· != '=')
  match switches.filter fun switch => name.isPrefixOf switch.name with
  | [] => if arg.contains ' ' then .operand else .unknown
  | [switch] => if arg.contains '=' then .valued else .switch switch
  | _ => .ambiguous

/-- The short option may only be repeated, right behind itself or behind an equals
sign; anything else there would be a value, which it does not take.  Readers of
command lines do not agree on what is glued to a short option: the later ones answer
`-hx` with help and refuse `-h=h`.  The earlier practice is kept here. -/
def shortHelp (tail : List Char) : Argument :=
  let again := if tail.head? = some '=' then tail.tail else tail
  if tail.isEmpty || (!again.isEmpty && again.all (· == 'h')) then .switch .help
  else .valued

def classifyArgument (switches : List Switch) (arg : List Char) : Argument :=
  match arg with
  | '-' :: '-' :: _ => longOption switches arg
  | '-' :: 'h' :: tail => shortHelp tail
  | '-' :: next :: rest =>
    if looksNumeric (next :: rest) || arg.contains ' ' then .operand else .unknown
  | _ => .operand

def allSwitches : List Switch := [.help, .debug, .lazy]

/-- The expression behind a command.  `stray` tells whether an argument without a
use has been seen; it is held against the whole line only at the end, so that help
can still be asked for. -/
def readExpression (finish : String → Request) (expression : Option String)
    (stray : Bool) :
    List String → Request
  | [] =>
    match expression with
    | some found => if stray then .misuse else finish found
    | none => .misuse
  | arg :: rest =>
    if arg = "--" then
      match expression.toList ++ rest with
      | [found] => if stray then .misuse else finish found
      | _ => .misuse
    else
      match classifyArgument [.help] arg.toList with
      | .operand =>
        match expression with
        | none => readExpression finish (some arg) stray rest
        | some _ => readExpression finish expression true rest
      | .switch _ => .help
      | .unknown => readExpression finish expression true rest
      | _ => .misuse

/-- The switches in front of a command. -/
def readSwitches (debug lazy stray : Bool) : List String → Request
  | [] => .misuse
  | arg :: rest =>
    if arg = "--" then .misuse
    else
      match classifyArgument allSwitches arg.toList with
      | .operand =>
        match Command.ofName? arg with
        | some command =>
          readExpression (fun expression => .run ⟨debug, lazy, command, expression⟩)
            none stray rest
        | none => .misuse
      | .switch .help => .help
      | .switch .debug => readSwitches true lazy stray rest
      | .switch .lazy => readSwitches debug true stray rest
      | .unknown => readSwitches debug lazy true rest
      | _ => .misuse

/-- What a command line asks for.  An ambiguous option anywhere before a double
dash spoils it, whatever else it holds. -/
def Request.ofArguments (args : List String) : Request :=
  let options := args.takeWhile (· != "--")
  if options.any fun arg =>
      classifyArgument allSwitches arg.toList = .ambiguous then .misuse
  else readSwitches false false false args

end InfixCalc

import InfixCalc.CommandLine.Run

/-!
# The program

Arguments and environment in, output and exit code out.
-/

open InfixCalc

def main (args : List String) : IO UInt32 := do
  let debug ← IO.getEnv "YARDCALC_DEBUG"
  let fold ← IO.getEnv "YARDCALC_FOLD"
  let settings := Settings.ofVariables fun name =>
    if name = "YARDCALC_DEBUG" then debug else fold
  let transcript := (Request.ofArguments args).transcript settings
  (← IO.getStdout).putStr transcript.stdout
  (← IO.getStderr).putStr transcript.stderr
  return transcript.exitCode.toUInt32

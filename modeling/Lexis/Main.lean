/-
  Lexis.Main

  The program on the command line: gathers what a run may look at, runs it, writes what it leaves.
-/

import Lexis.Run.Program

namespace Lexis.Main

/-- The number and the words of an error that the system gives. An error that is known without its
    number is taken for one of input and output. -/
def systemError : IO.Error → SystemError
  | .permissionDenied _ code words | .resourceExhausted _ code words
  | .inappropriateType _ code words | .invalidArgument _ code words
  | .resourceBusy code words | .hardwareFault code words | .timeExpired code words
  | .unsupportedOperation code words | .otherError code words => ⟨code.toNat, words⟩
  | e => ⟨5, toString e⟩

/-- Whether a path names anything. -/
def exists? (path : String) : IO Bool := do
  try
    let _ ← IO.FS.realPath path
    return true
  catch _ => return false

/-- What a path names. -/
def readEntry (path : String) : IO Entry := do
  try
    let bytes ← IO.FS.readBinFile path
    return .file bytes.toList
  catch
    | .inappropriateType .. | .resourceVanished .. => return .directory
    | e => return if ← exists? path then .unreadable (systemError e) else .missing

/-- The files at some paths, and nothing elsewhere. -/
def readFiles (paths : List String) : IO Files := do
  let found ← paths.mapM fun path => do return (path, ← readEntry path)
  return fun path => (found.lookup path).getD .missing

/-- The variables that a run looks at, with those that name its directories. -/
def readEnvironment : IO Run.Environment := do
  let vars : CommandLine.Variables := {
    verbose := ← IO.getEnv "QUILLT_VERBOSE"
    config := ← IO.getEnv "QUILLT_CONFIG"
    noColor := ← IO.getEnv "QUILLT_NO_COLOR" }
  return .ofVariables vars (← IO.getEnv "HOME") (← IO.getEnv "XDG_CONFIG_HOME")

/-- A line as it is written to standard error. -/
def lineText (color : Bool) : Line → String
  | .plain s => s
  | .event e => if color then "\x1b[2m" ++ e.text ++ "\x1b[0m" else e.text

/-- Runs the program and answers its exit code. -/
def runProgram (args : List String) : IO UInt32 := do
  let env ← readEnvironment
  let files ← readFiles (Run.consultedPaths env args)
  match Run.run env files args with
  | .error _ =>
    IO.eprintln "a source has more lines than can be counted"
    return 101
  | .ok outcome =>
    IO.print outcome.output
    for line in outcome.lines do
      IO.eprintln (lineText outcome.color line)
    if outcome.exit = 2 then
      IO.eprint Run.helpText
    return outcome.exit.toUInt32

end Lexis.Main

/-- The program. -/
def main (args : List String) : IO UInt32 :=
  Lexis.Main.runProgram args

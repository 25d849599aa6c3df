/-
  Lexis.Run.Program

  The whole program: from arguments, variables and files to what a run leaves behind.

  A run goes through fixed stages: the command line, the configuration, for a dump its format, then
  the files. The first stage that fails ends it, and nothing of the later ones happens. Options and
  variables win over the configuration.
-/

import Lexis.CommandLine.Reader
import Lexis.Run.Command
import Lexis.Run.Environment
import Lexis.Settings

namespace Lexis.Run

/-- What a run leaves behind. -/
structure Outcome where
  exit : Nat
  /-- What it writes to standard output. -/
  output : String
  /-- What it writes to standard error, in order. -/
  lines : List Line
  /-- Whether events are written in color. -/
  color : Bool
  deriving DecidableEq

/-- The lines that a text breaks into at its line feeds. -/
def brokenLines (s : String) : List String :=
  (s.toList.splitOn '\n').map String.ofList

namespace Outcome

/-- The events among the lines. -/
def events (o : Outcome) : List Event :=
  o.lines.filterMap fun
    | .event e => some e
    | .plain _ => none

/-- The log line by line. Where the path in an event holds a line feed, the log line ends. -/
def logLines (o : Outcome) : List String :=
  o.events.map fun e => (brokenLines e.text).headD ""

/-- What stands on lines of its own beside the log, with what line feeds cut off from events. -/
def messageLines (o : Outcome) : List String :=
  o.lines.flatMap fun
    | .event e => (brokenLines e.text).tail
    | .plain s => brokenLines s

/-- Whether anything was written in color. -/
def isColored (o : Outcome) : Bool :=
  o.color && !o.events.isEmpty

end Outcome

/-! ## Stages -/

/-- The settings for a request: those of the file it names, or of the first file that exists. -/
def loadSettings (env : Environment) (files : Files) (config : Option String) :
    Except Failure Settings :=
  match config with
  | some path => Settings.load files path
  | none => Settings.loadFirst files env.configurations

/-- Runs a command; the result is what goes to standard output. -/
def execute (files : Files) (settings : Settings) : CommandLine.Command → Transcript String
  | .tokens inputs format spans => do
    let format ← Transcript.ofFailing (Format.resolve format settings.format)
    tokensCommand files format (spans || settings.showSpans) inputs
  | .check inputs maxErrors => do
    checkCommand files (maxErrors <|> settings.maxErrors) inputs
    return ""

/-- Whether a line is shown: details are left out of a run that is not verbose. -/
def isShown (verbose : Bool) : Line → Bool
  | .event e => verbose || !e.isDetail
  | .plain _ => true

/-- What a request leaves behind, unless a scan passes a limit. -/
def runRequest (env : Environment) (files : Files) (r : CommandLine.Request) :
    Except Fault Outcome :=
  match loadSettings env files r.config with
  | .error failure => .ok ⟨1, "", [.plain failure.report], !r.noColor⟩
  | .ok settings =>
    let transcript := execute files settings r.command
    let lines := transcript.lines.filter (isShown (r.verbose || settings.verbose))
    match transcript.result with
    | .ok output => .ok ⟨0, output, lines, !r.noColor⟩
    | .error (.failure failure) => .ok ⟨1, "", lines ++ [.plain failure.report], !r.noColor⟩
    | .error (.fault fault) => .error fault

/-! ## Runs without a command -/

/-- What a program says of its version. -/
def versionText (level : CommandLine.Level) : String :=
  level.programName ++ " 0.1.0\n"

/-- How the program is used. The text is one of its own: it gives the same commands and options as
    the usual help, in other words and another layout. -/
def helpText : String :=
  "Usage: quillt [OPTIONS] tokens FILE... [-F FORMAT] [--spans]\n" ++
  "       quillt [OPTIONS] check FILE... [--max-errors N]\n" ++
  "\n" ++
  "Options:\n" ++
  "  -v, --verbose        Log every step\n" ++
  "  -c, --config PATH    Read the configuration at PATH\n" ++
  "      --no-color       Do not color the log\n" ++
  "  -F, --format FORMAT  Dump as text or json\n" ++
  "      --spans          Show byte spans in a text dump\n" ++
  "      --max-errors N   List at most N errors of each file\n" ++
  "  -h, --help           Print this text\n" ++
  "  -V, --version        Print the version\n"

/-- What a refused command line leaves behind. -/
def refused : CommandLine.Refusal → Outcome
  | .usage => ⟨2, "", [], false⟩
  | .version level => ⟨0, versionText level, [], false⟩
  | .help => ⟨0, helpText, [], false⟩

/-- The paths that a run may look at. -/
def consultedPaths (env : Environment) (args : List String) : List String :=
  match CommandLine.read env.vars args with
  | .error _ => []
  | .ok r => r.config.elim env.configurations ([·]) ++ r.command.inputs

/-- Runs the program. -/
def run (env : Environment) (files : Files) (args : List String) : Except Fault Outcome :=
  match CommandLine.read env.vars args with
  | .error refusal => .ok (refused refusal)
  | .ok request => runRequest env files request

end Lexis.Run

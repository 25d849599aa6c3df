/-
  Lexis.Run.Command

  The two commands: dumping tokens and checking for lexical errors.

  A dump reads all its files before it scans the first; a check reads and scans one file after the
  other. Either stops at the first file that cannot be read.
-/

import Lexis.Check
import Lexis.Dump.Basic
import Lexis.Dump.Format
import Lexis.Files.Basic
import Lexis.Run.Transcript
import Lexis.Scan.Scanner

namespace Lexis.Run

/-! ## Sources -/

/-- Reads a source. -/
def loadSource (files : Files) (path : String) : Transcript String := do
  let source ← Transcript.ofFailing (files.readSource path)
  Transcript.record (.loadedSource path source.utf8ByteSize)
  return source

/-- The event that an error token gives rise to. -/
def errorEvent? (t : Token) : Option Event :=
  t.error?.map fun e => .lexicalError e.message t.line t.span.start t.span.stop

/-- Records the errors among the tokens that a scan yields. -/
def recordScan (scan : Except Fault (List Token)) : Transcript (List Token) := do
  let tokens ← Transcript.ofScan scan
  Transcript.write ((tokens.filterMap errorEvent?).map .event)
  return tokens

/-! ## Dumps -/

/-- Scans one file of a dump; only a text dump records it. -/
def scanFile (format : Format) (path source : String) : Transcript Dump.File := do
  let tokens ← recordScan (tokenize source)
  match format with
  | .text => Transcript.record (.scannedFile path tokens.length)
  | .json => pure ()
  return ⟨path, tokens⟩

/-- The dump of sources, each with the path it was read from. -/
def render (format : Format) (spans : Bool) (sources : List (String × String)) :
    Transcript String := do
  let scanned ← sources.mapM fun (path, source) => scanFile format path source
  match format with
  | .text => return Dump.text spans scanned
  | .json => return Dump.json scanned

/-- The dump of the sources at some paths. -/
def dump (files : Files) (format : Format) (spans : Bool) (paths : List String) :
    Transcript String := do
  if paths.isEmpty then Transcript.fail .noInput
  -- Every file is read before the first is scanned.
  let sources ← paths.mapM fun path => do return (path, ← loadSource files path)
  render format spans sources

/-- The command that dumps tokens; the dump is its output. -/
def tokensCommand (files : Files) (format : Format) (spans : Bool) (paths : List String) :
    Transcript String := do
  Transcript.record (.runningCommand "tokens")
  dump files format spans paths

/-! ## Checks -/

/-- Checks the source at one path. The end token is not drawn, so it is not counted. -/
def checkFile (files : Files) (maxErrors : Option Nat) (tally : Check.Tally) (path : String) :
    Transcript Check.Tally := do
  let source ← loadSource files path
  let tokens ← recordScan ((Scanner.ofSource source).collect.map (·.1))
  let progress := tokens.foldl (Check.Progress.count maxErrors path) (.start tally)
  Transcript.record (.checkedFile path progress.errors)
  return progress.finish

/-- Checks the sources at some paths. -/
def check (files : Files) (maxErrors : Option Nat) (paths : List String) :
    Transcript Check.Report := do
  if paths.isEmpty then Transcript.fail .noInput
  let tally ← paths.foldlM (checkFile files maxErrors) .empty
  return tally.report

/-- The command that checks files: it lists what it finds and fails if there was any error. -/
def checkCommand (files : Files) (maxErrors : Option Nat) (paths : List String) :
    Transcript Unit := do
  Transcript.record (.runningCommand "check")
  let report ← check files maxErrors paths
  Transcript.write (report.findings.map (.plain ·.text))
  Transcript.record (.checkFinished report.files report.tokens report.errors)
  if report.errors ≠ 0 then Transcript.fail (.lexicalErrors report.errors)

end Lexis.Run

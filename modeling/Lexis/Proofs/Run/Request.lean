/-
  Lexis.Proofs.Run.Request

  What a request leaves behind, stage by stage.

  A request is its command, once its settings are known; where they cannot be loaded, or a dump has
  no format, nothing of the command is run.
-/

import Lexis.Proofs.Run.Stages

namespace Lexis.Run

open CommandLine

variable {env env' : Environment} {files files' : Files} {r : Request} {settings : Settings}
  {f : Failure}

/-- A command line that is not refused is run as its request. -/
theorem run_eq {args : List String} (hread : read env.vars args = .ok r) :
    run env files args = runRequest env files r := by
  simp only [run, hread]

/-- What is left behind by a command. -/
def ended (verbose noColor : Bool) (x : Transcript String) : Except Fault Outcome :=
  match x.result with
  | .ok output => .ok ⟨0, output, x.lines.filter (isShown verbose), !noColor⟩
  | .error (.failure f) =>
    .ok ⟨1, "", x.lines.filter (isShown verbose) ++ [.plain f.report], !noColor⟩
  | .error (.fault fault) => .error fault

/-- Once its settings are known, a request is its command. -/
theorem runRequest_eq_ended (hload : loadSettings env files r.config = .ok settings) :
    runRequest env files r =
      ended (r.verbose || settings.verbose) r.noColor (execute files settings r.command) := by
  simp only [runRequest, hload]
  rfl

/-- A command that succeeds leaves its output, and of its lines those that are shown. -/
theorem runRequest_of_ok {output : String} (hload : loadSettings env files r.config = .ok settings)
    (h : (execute files settings r.command).result = .ok output) :
    runRequest env files r =
      .ok ⟨0, output, (execute files settings r.command).lines.filter
        (isShown (r.verbose || settings.verbose)), !r.noColor⟩ := by
  simp only [runRequest, hload, h]

/-- A command that fails leaves the report of its failure behind the lines that are shown. -/
theorem runRequest_of_failure (hload : loadSettings env files r.config = .ok settings)
    (h : (execute files settings r.command).result = .error (.failure f)) :
    runRequest env files r =
      .ok ⟨1, "", (execute files settings r.command).lines.filter
        (isShown (r.verbose || settings.verbose)) ++ [.plain f.report], !r.noColor⟩ := by
  simp only [runRequest, hload, h]

/-- A command that passes a limit leaves nothing. -/
theorem runRequest_of_fault {fault : Fault}
    (hload : loadSettings env files r.config = .ok settings)
    (h : (execute files settings r.command).result = .error (.fault fault)) :
    runRequest env files r = .error fault := by
  simp only [runRequest, hload, h]

/-- Where the configuration cannot be loaded, the report of that is all. -/
theorem runRequest_of_configuration (hload : loadSettings env files r.config = .error f) :
    runRequest env files r = .ok ⟨1, "", [.plain f.report], !r.noColor⟩ := by
  simp only [runRequest, hload]

/-- Where no format is found, no step of the dump is made. -/
theorem runRequest_of_format {inputs : List String} {asked : Option String} {spans : Bool}
    (hload : loadSettings env files r.config = .ok settings)
    (hcommand : r.command = .tokens inputs asked spans)
    (hformat : Format.resolve asked settings.format = .error f) :
    runRequest env files r = .ok ⟨1, "", [.plain f.report], !r.noColor⟩ := by
  have hexecute : execute files settings r.command = ⟨[], .error (.failure f)⟩ := by
    rw [hcommand, execute_tokens_of_error hformat]
  rw [runRequest_of_failure hload (congrArg Transcript.result hexecute), hexecute]
  rfl

/-- Two runs are alike if their settings are and their commands write the same. -/
theorem runRequest_congr {r' : Request} (hverbose : r'.verbose = r.verbose)
    (hcolor : r'.noColor = r.noColor)
    (hload : loadSettings env' files' r'.config = loadSettings env files r.config)
    (hexecute : ∀ settings,
      execute files' settings r'.command = execute files settings r.command) :
    runRequest env' files' r' = runRequest env files r := by
  unfold runRequest
  rw [hload, hverbose, hcolor]
  cases loadSettings env files r.config with
  | error f => rfl
  | ok settings => simp only [hexecute settings]

end Lexis.Run

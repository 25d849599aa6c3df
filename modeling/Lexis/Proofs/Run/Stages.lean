/-
  Lexis.Proofs.Run.Stages

  The stages of a request, and the first of them to fail.

  A request goes through its stages in a fixed order: the configuration, for a dump its format, then
  the files in the order given. A command has nothing of its files but the sources up to the first
  that cannot be read, and what it writes up to there are details of the log.
-/

import Lexis.Proofs.CommandLine.Variables
import Lexis.Proofs.Run.Inputs

namespace Lexis

/-! ## Requests -/

namespace CommandLine

/-- The same command given other files. -/
def Command.withInputs (inputs : List String) : Command → Command
  | .tokens _ format spans => .tokens inputs format spans
  | .check _ maxErrors => .check inputs maxErrors

theorem Command.withInputs_inputs (c : Command) : c.withInputs c.inputs = c := by
  cases c <;> rfl

theorem Command.inputs_withInputs (c : Command) (inputs : List String) :
    (c.withInputs inputs).inputs = inputs := by
  cases c <;> rfl

/-- The same request for other files. -/
def Request.withInputs (inputs : List String) (r : Request) : Request :=
  { r with command := r.command.withInputs inputs }

end CommandLine

/-- A path is that of a regular file, and what it holds is UTF-8. -/
def Files.HoldsText (files : Files) (path : String) : Prop :=
  ∃ bytes cs, files path = .file bytes ∧ Utf8.decode bytes = .ok cs

theorem Files.holdsText_iff {files : Files} {path : String} :
    files.HoldsText path ↔ ∃ source, files.readSource path = .ok source := by
  cases hentry : files path with
  | missing | directory | unreadable => simp [HoldsText, readSource, hentry]
  | file bytes =>
    cases hdecode : Utf8.decode bytes <;> simp [HoldsText, readSource, hentry, hdecode]

namespace Run

open Check CommandLine

variable {env env' : Environment} {files files' : Files} {r : Request} {settings : Settings}
  {f : Failure} {o : Outcome}

/-! ## Stages -/

/-- The failure of the first stage of a request that fails. -/
inductive FirstFailure (env : Environment) (files : Files) (r : Request) : Failure → Prop where
  /-- The configuration is loaded first. -/
  | configuration {f : Failure} (hload : loadSettings env files r.config = .error f) :
      FirstFailure env files r f
  /-- Then a dump needs its format; a check needs none. -/
  | format {settings : Settings} {inputs : List String} {asked : Option String} {spans : Bool}
      {f : Failure} (hload : loadSettings env files r.config = .ok settings)
      (hcommand : r.command = .tokens inputs asked spans)
      (hformat : Format.resolve asked settings.format = .error f) : FirstFailure env files r f
  /-- Then the files are read in the order given, up to the first that cannot be. -/
  | input {settings : Settings} {before : List String} {path : String} {after : List String}
      {f : Failure} (hload : loadSettings env files r.config = .ok settings)
      (hformat : ∀ inputs asked spans, r.command = .tokens inputs asked spans →
        ∃ format, Format.resolve asked settings.format = .ok format)
      (hinputs : r.command.inputs = before ++ path :: after)
      (hbefore : ∀ p ∈ before, ∃ source, files.readSource p = .ok source)
      (hpath : files.readSource path = .error f) : FirstFailure env files r f

/-- Either some stage is the first to fail, or every stage succeeds. -/
theorem firstFailure_or (env : Environment) (files : Files) (r : Request) :
    (∃ f, FirstFailure env files r f) ∨
      ∃ settings sources, loadSettings env files r.config = .ok settings ∧
        (∀ inputs asked spans, r.command = .tokens inputs asked spans →
          ∃ format, Format.resolve asked settings.format = .ok format) ∧
        r.command.inputs.mapM files.readSource = .ok sources := by
  -- In the order of the stages: configuration, format, inputs.
  cases hload : loadSettings env files r.config with
  | error f => exact .inl ⟨f, .configuration hload⟩
  | ok settings =>
    by_cases hformat : ∀ inputs asked spans, r.command = .tokens inputs asked spans →
        ∃ format, Format.resolve asked settings.format = .ok format
    · cases hread : r.command.inputs.mapM files.readSource with
      | ok sources => exact .inr ⟨settings, sources, rfl, hformat, rfl⟩
      | error f =>
        obtain ⟨before, path, after, hinputs, hbefore, hpath⟩ := exists_of_mapM_eq_error hread
        exact .inl ⟨f, .input hload hformat hinputs hbefore hpath⟩
    -- Some format does not resolve, which is the dump's alone.
    · push Not at hformat
      obtain ⟨inputs, asked, spans, hcommand, hnone⟩ := hformat
      cases hresolve : Format.resolve asked settings.format with
      | ok format => exact absurd hresolve (hnone format)
      | error f => exact .inl ⟨f, .format hload hcommand hresolve⟩

/-! ## Commands -/

theorem execute_tokens_of_error {inputs : List String} {asked : Option String} {spans : Bool}
    (h : Format.resolve asked settings.format = .error f) :
    execute files settings (.tokens inputs asked spans) = ⟨[], .error (.failure f)⟩ := by
  rw [execute, h]
  rfl

theorem execute_tokens_of_ok {inputs : List String} {asked : Option String} {spans : Bool}
    {format : Format} (h : Format.resolve asked settings.format = .ok format) :
    execute files settings (.tokens inputs asked spans) =
      tokensCommand files format (spans || settings.showSpans) inputs := by
  rw [execute, h]
  exact pure_bind format _

theorem execute_check (files : Files) (settings : Settings) (inputs : List String)
    (maxErrors : Option Nat) :
    execute files settings (.check inputs maxErrors) =
      checkCommand files (maxErrors <|> settings.maxErrors) inputs >>= fun _ => pure "" :=
  rfl

/-- A dump with a file that cannot be read fails before anything is scanned. -/
theorem execute_tokens_of_unreadable {before after : List String} {path : String}
    {asked : Option String} {spans : Bool} {format : Format}
    (hformat : Format.resolve asked settings.format = .ok format)
    (hbefore : ∀ p ∈ before, ∃ source, files.readSource p = .ok source)
    (hpath : files.readSource path = .error f) :
    (execute files settings (.tokens (before ++ path :: after) asked spans)).Quiet ∧
      (execute files settings (.tokens (before ++ path :: after) asked spans)).result =
        .error (.failure f) := by
  rw [execute_tokens_of_ok hformat]
  refine ⟨quiet_tokensCommand files format _ _, ?_⟩
  rw [tokensCommand, Transcript.result_bind_ok rfl, result_dump _ _ (by simp),
    mapM_append_eq_error hbefore hpath]
  rfl

/-- A dump of files that can all be read is the rendering of their tokens. -/
theorem execute_tokens_of_sources {inputs sources : List String} {asked : Option String}
    {format : Format} (spans : Bool) (hne : inputs ≠ [])
    (hformat : Format.resolve asked settings.format = .ok format)
    (hread : inputs.mapM files.readSource = .ok sources) :
    (execute files settings (.tokens inputs asked spans)).Quiet ∧
      (execute files settings (.tokens inputs asked spans)).result =
        ((scanned (inputs.zip sources)).map
          (Dump.written format (spans || settings.showSpans))).mapError .fault := by
  rw [execute_tokens_of_ok hformat]
  refine ⟨quiet_tokensCommand files format _ _, ?_⟩
  rw [tokensCommand, Transcript.result_bind_ok rfl, result_dump _ _ hne, hread, ← result_render]
  rfl

theorem execute_check_of_error {inputs : List String} {maxErrors : Option Nat} {stop : Stop}
    (h : (check files (maxErrors <|> settings.maxErrors) inputs).result = .error stop) :
    (execute files settings (.check inputs maxErrors)).Quiet ∧
      (execute files settings (.check inputs maxErrors)).result = .error stop := by
  obtain ⟨hquiet, hresult⟩ := checkCommand_of_error h
  rw [execute_check, Transcript.bind_error hresult]
  exact ⟨hquiet, rfl⟩

theorem execute_check_of_ok {inputs : List String} {maxErrors : Option Nat} {report : Report}
    (h : (check files (maxErrors <|> settings.maxErrors) inputs).result = .ok report) :
    DetailsThen (execute files settings (.check inputs maxErrors)).lines report.written ∧
      (execute files settings (.check inputs maxErrors)).result =
        if report.errors = 0 then .ok "" else .error (.failure (.lexicalErrors report.errors)) := by
  obtain ⟨hlines, hresult⟩ := checkCommand_of_ok h
  rw [execute_check]
  by_cases hzero : report.errors = 0
  · rw [if_pos hzero] at hresult ⊢
    rw [Transcript.lines_bind_ok hresult, Transcript.result_bind_ok hresult]
    exact ⟨(List.append_nil _).symm ▸ hlines, rfl⟩
  · rw [if_neg hzero] at hresult ⊢
    rw [Transcript.bind_error hresult]
    exact ⟨hlines, rfl⟩

/-- A command uses nothing of its files but their sources. -/
theorem execute_congr {c : Command}
    (h : ∀ path ∈ c.inputs, files'.readSource path = files.readSource path) :
    execute files' settings c = execute files settings c := by
  cases c with
  | tokens inputs asked spans =>
    cases hformat : Format.resolve asked settings.format with
    | error f => rw [execute_tokens_of_error hformat, execute_tokens_of_error hformat]
    | ok format =>
      have hdump : dump files' format (spans || settings.showSpans) inputs =
          dump files format (spans || settings.showSpans) inputs := dump_congr _ _ h
      rw [execute_tokens_of_ok hformat, execute_tokens_of_ok hformat, tokensCommand, tokensCommand,
        hdump]
  | check inputs maxErrors =>
    have hcheck : check files' (maxErrors <|> settings.maxErrors) inputs =
        check files (maxErrors <|> settings.maxErrors) inputs := check_congr _ h
    rw [execute_check, execute_check, checkCommand, checkCommand, hcheck]

/-- What a command is given behind a file that cannot be read changes nothing. -/
theorem execute_of_unreadable {before after : List String} {path : String} (c : Command)
    (h : files.readSource path = .error f) :
    execute files settings (c.withInputs (before ++ path :: after)) =
      execute files settings (c.withInputs (before ++ [path])) := by
  cases c with
  | tokens inputs asked spans =>
    rw [Command.withInputs, Command.withInputs]
    cases hformat : Format.resolve asked settings.format with
    | error f => rw [execute_tokens_of_error hformat, execute_tokens_of_error hformat]
    | ok format =>
      rw [execute_tokens_of_ok hformat, execute_tokens_of_ok hformat, tokensCommand, tokensCommand,
        dump_of_unreadable _ _ h]
  | check inputs maxErrors =>
    rw [Command.withInputs, Command.withInputs, execute_check, execute_check, checkCommand,
      checkCommand, check_of_unreadable _ h]

end Run

end Lexis

/-
  Lexis.Proofs.Run.AllOrNothing

  A run of the program is all or nothing.

  Whatever stage of a request is the first to fail, the run reports just that failure, and leaves
  neither output nor findings. If no stage fails, a dump is written in full, or all findings of a
  check are. The exit tells which, and so does the last line beside the log.
-/

import Lexis.Proofs.Dump.Form
import Lexis.Proofs.Run.Errors
import Lexis.Proofs.Run.Request

namespace Lexis.Run

open Check CommandLine

variable {env env' : Environment} {files files' : Files} {r : Request} {settings : Settings}
  {f : Failure} {o : Outcome}

/-! ## Ways to end -/

namespace Outcome

/-- A run without output that writes one line, besides details of the log. -/
structure Fails (o : Outcome) (line : String) : Prop where
  exit_eq : o.exit = 1
  output_eq : o.output = ""
  lines : DetailsThen o.lines [.plain line]

/-- A run whose output is the dump of some files in a format, and which writes nothing besides
    details of the log. -/
structure Dumps (o : Outcome) (format : Format) (spans : Bool) (files : List Dump.File) :
    Prop where
  exit_eq : o.exit = 0
  output : Dump.IsDump spans files format o.output
  lines : DetailsThen o.lines []

/-- A run without output that writes what a check finds. Each finding is a line with its path, the
    number of its line and what it says; the event that the check is finished follows, and, if
    there is any error, the error that tells how many there are. -/
structure Checks (o : Outcome) (report : Report) : Prop where
  exit_eq : o.exit = if report.errors = 0 then 0 else 1
  output_eq : o.output = ""
  lines : DetailsThen o.lines
    (report.findings.map (fun f =>
        .plain (f.path ++ ":" ++ toString f.line ++ ": " ++ f.message)) ++
      [.event (.checkFinished report.files report.tokens report.errors)] ++
      if report.errors = 0 then []
      else [.plain (errorLine "CommandExecution"
        (toString report.errors ++ " lexical error(s) found"))])
  /-- The event in the words of the log. -/
  finished : (Event.checkFinished report.files report.tokens report.errors).text =
    "INFO check finished files=" ++ toString report.files ++ " tokens=" ++
      toString report.tokens ++ " errors=" ++ toString report.errors

/-- A run that fails with a report, or that writes to its log only. -/
inductive Closed (o : Outcome) : Prop where
  | reporting {lines : List Line} {f : Failure} (hexit : o.exit = 1)
      (hlines : o.lines = lines ++ [.plain f.report])
  | logging (hexit : o.exit = 0) (hlines : ∀ l ∈ o.lines, ∃ e, l = .event e)

/-- A run that fails with a report is told by its exit status. -/
theorem Fails.closed (h : o.Fails f.report) : o.Closed := by
  obtain ⟨details, -, hlines⟩ := h.lines
  exact .reporting h.exit_eq hlines

theorem Dumps.closed {format : Format} {spans : Bool} {scannedFiles : List Dump.File}
    (h : o.Dumps format spans scannedFiles) : o.Closed := by
  obtain ⟨details, hdetails, hlines⟩ := h.lines
  refine .logging h.exit_eq fun l hl => ?_
  rw [hlines, List.append_nil] at hl
  exact Line.exists_event_of_isDetail (hdetails l hl)

/-- A check that writes the lines of its report. -/
theorem checks_of_lines {report : Report}
    (hexit : o.exit = if report.errors = 0 then 0 else 1) (houtput : o.output = "")
    (hlines : DetailsThen o.lines report.lines) : o.Checks report := by
  rw [Report.lines, Report.written, report_lexicalErrors] at hlines
  exact ⟨hexit, houtput, hlines, Event.text_checkFinished _ _ _⟩

theorem Checks.closed {report : Report} (h : o.Checks report)
    (hnone : report.errors = 0 → report.findings = []) : o.Closed := by
  obtain ⟨details, hdetails, hlines⟩ := h.lines
  have hexit := h.exit_eq
  -- With errors the report that ends the run is the count of them.
  by_cases hzero : report.errors = 0
  · rw [if_pos hzero] at hlines
    rw [if_pos hzero] at hexit
    refine .logging hexit fun l hl => ?_
    rw [hlines, hnone hzero, List.map_nil, List.nil_append, List.append_nil] at hl
    rcases List.mem_append.1 hl with hl | hl
    · exact Line.exists_event_of_isDetail (hdetails l hl)
    · exact ⟨_, List.mem_singleton.1 hl⟩
  · rw [if_neg hzero] at hexit hlines
    exact .reporting (f := .lexicalErrors report.errors) hexit
      (hlines.trans (List.append_assoc _ _ _).symm)

namespace Closed

/-- A run that is told by its exit status ends with 0 or with 1. -/
theorem exit_eq (h : o.Closed) : o.exit = 0 ∨ o.exit = 1 := by
  cases h with
  | reporting hexit hlines => exact .inr hexit
  | logging hexit hlines => exact .inl hexit

/-- The last line beside the log reports an error just where the run fails. -/
theorem exit_eq_one_iff (h : o.Closed) :
    o.exit = 1 ↔ ∃ line, o.messageLines.getLast? = some line ∧ IsErrorLine line := by
  cases h with
  | @reporting lines f hexit hlines =>
    exact ⟨fun _ => ⟨f.report, getLast?_messageLines hlines, isErrorLine_report f⟩, fun _ => hexit⟩
  | logging hexit hlines =>
    constructor
    · intro hone
      rw [hexit] at hone
      cases hone
    · rintro ⟨line, hlast, hline⟩
      exact absurd hline (not_isErrorLine_of_getLast?_messageLines hlines hlast)

/-- What is last written beside the log starts like a report just where the run fails. -/
theorem exit_eq_one_iff_startsWith (h : o.Closed) :
    o.exit = 1 ↔ ∃ s, o.messages.getLast? = some s ∧ "Error:".toList <+: s.toList := by
  cases h with
  | @reporting lines f hexit hlines =>
    refine ⟨fun _ => ⟨f.report, ?_, f.error_prefix_report⟩, fun _ => hexit⟩
    rw [messages, hlines, List.filterMap_append]
    exact List.getLast?_concat
  | logging hexit hlines =>
    -- Nothing but events means that nothing was reported.
    have hnone : o.messages = [] := by
      rw [messages, List.filterMap_eq_nil_iff]
      intro l hl
      obtain ⟨e, rfl⟩ := hlines l hl
      rfl
    constructor
    · intro hone
      rw [hexit] at hone
      cases hone
    · rintro ⟨s, hs, -⟩
      rw [hnone] at hs
      cases hs

end Closed

end Outcome

/-! ## Runs of a request -/

/-- A failure before the first step of a command. -/
theorem exists_fails_at_once
    (h : runRequest env files r = .ok ⟨1, "", [.plain f.report], !r.noColor⟩) :
    ∃ o, runRequest env files r = .ok o ∧ o.Fails f.report :=
  ⟨_, h, rfl, rfl, [], List.forall_mem_nil _, rfl⟩

/-- A failure of a command that has written details only. -/
theorem exists_fails_of_quiet (hload : loadSettings env files r.config = .ok settings)
    (h : (execute files settings r.command).Quiet ∧
      (execute files settings r.command).result = .error (.failure f)) :
    ∃ o, runRequest env files r = .ok o ∧ o.Fails f.report := by
  have hlines := (detailsThen_of_quiet h.1).shown (List.forall_mem_nil _)
    (r.verbose || settings.verbose)
  exact ⟨_, runRequest_of_failure hload h.2, rfl, rfl, hlines.append [.plain f.report]⟩

/-- The first failure of a dump is reported, whatever its files hold. -/
theorem exists_fails_of_tokens {inputs : List String} {asked : Option String} {spans : Bool}
    (hcommand : r.command = .tokens inputs asked spans) (h : FirstFailure env files r f) :
    ∃ o, runRequest env files r = .ok o ∧ o.Fails f.report := by
  cases h with
  | configuration hload => exact exists_fails_at_once (runRequest_of_configuration hload)
  | format hload hcommand' hformat =>
    exact exists_fails_at_once (runRequest_of_format hload hcommand' hformat)
  | @input settings before path after _ hload hformat hinputs hbefore hpath =>
    obtain ⟨format, hresolve⟩ := hformat inputs asked spans hcommand
    obtain rfl : inputs = before ++ path :: after := by rwa [hcommand] at hinputs
    refine exists_fails_of_quiet hload ?_
    rw [hcommand]
    exact execute_tokens_of_unreadable hresolve hbefore hpath

/-- The request is answered by an outcome of some kind, or a file holds too many lines. -/
def Answers (env : Environment) (files : Files) (r : Request) (p : Outcome → Prop) : Prop :=
  (∃ o, runRequest env files r = .ok o ∧ p o) ∨
    (runRequest env files r = .error .lineOverflow ∧ Overflows files r.command.inputs)

/-- The first failure of a check is reported, unless the check has passed the limit on lines. -/
theorem answers_of_check_fails {inputs : List String} {maxErrors : Option Nat}
    (hfits : Fits files r.command.inputs) (hcommand : r.command = .check inputs maxErrors)
    (h : FirstFailure env files r f) : Answers env files r (·.Fails f.report) := by
  cases h with
  | configuration hload => exact .inl (exists_fails_at_once (runRequest_of_configuration hload))
  | format hload hcommand' hformat =>
    exact .inl (exists_fails_at_once (runRequest_of_format hload hcommand' hformat))
  | @input settings before path after _ hload hformat hinputs hbefore hpath =>
    -- A check scans as it goes, so a file before the one that cannot be read may end it.
    have hfitsBefore : Fits files before := by
      intro p hp
      exact hfits p (hinputs ▸ List.mem_append_left _ hp)
    obtain rfl : inputs = before ++ path :: after := by rwa [hcommand] at hinputs
    rcases result_check_of_unreadable (maxErrors <|> settings.maxErrors) after hfitsBefore hbefore
      hpath with hresult | ⟨hresult, hover⟩
    · refine .inl (exists_fails_of_quiet hload ?_)
      rw [hcommand]
      exact execute_check_of_error hresult
    · have hfault := (execute_check_of_error hresult).2
      rw [← hcommand] at hfault
      refine .inr ⟨runRequest_of_fault hload hfault, ?_⟩
      rw [hinputs]
      exact hover.mono fun _ => List.mem_append_left _

/-- The first failure is the one that a run reports. -/
theorem answers_of_firstFailure (hfits : Fits files r.command.inputs)
    (h : FirstFailure env files r f) : Answers env files r (·.Fails f.report) := by
  cases hcommand : r.command with
  | tokens inputs asked spans => exact .inl (exists_fails_of_tokens hcommand h)
  | check inputs maxErrors => exact answers_of_check_fails hfits hcommand h

/-- A request for a dump whose stages all succeed is answered by the dump of all files. -/
theorem answers_of_tokens {inputs sources : List String} {asked : Option String} {spans : Bool}
    {format : Format} (hne : r.command.inputs ≠ []) (hfits : Fits files r.command.inputs)
    (hcommand : r.command = .tokens inputs asked spans)
    (hload : loadSettings env files r.config = .ok settings)
    (hformat : Format.resolve asked settings.format = .ok format)
    (hread : inputs.mapM files.readSource = .ok sources) :
    Answers env files r fun o => ∃ scannedFiles, scanned (inputs.zip sources) = .ok scannedFiles ∧
      o.Dumps format (spans || settings.showSpans) scannedFiles := by
  have hinputs : r.command.inputs = inputs := by
    rw [hcommand]
    rfl
  rw [hinputs] at hne hfits
  obtain ⟨hquiet, hresult⟩ := execute_tokens_of_sources spans hne hformat hread
  rw [← hcommand] at hquiet hresult
  -- All files can be read, so only the line counter stands between them and the dump.
  cases hscanned : scanned (inputs.zip sources) with
  | error fault =>
    obtain ⟨rfl, hover⟩ := overflows_of_scanned hfits hread hscanned
    rw [hscanned] at hresult
    rw [← hinputs] at hover
    exact .inr ⟨runRequest_of_fault hload hresult, hover⟩
  | ok scannedFiles =>
    rw [hscanned] at hresult
    have hlines := (detailsThen_of_quiet hquiet).shown (List.forall_mem_nil _)
      (r.verbose || settings.verbose)
    exact .inl ⟨_, runRequest_of_ok hload hresult, scannedFiles, rfl, rfl,
      Dump.isDump_written format _ scannedFiles, hlines⟩

/-- A request for a check whose stages all succeed is answered by the report on all files. -/
theorem answers_of_check {inputs sources : List String} {maxErrors : Option Nat}
    (hne : r.command.inputs ≠ []) (hfits : Fits files r.command.inputs)
    (hcommand : r.command = .check inputs maxErrors)
    (hload : loadSettings env files r.config = .ok settings)
    (hread : inputs.mapM files.readSource = .ok sources) :
    Answers env files r fun o => ∃ tss, sources.mapM tokenize = .ok tss ∧
      o.Checks (.ofTokens (maxErrors <|> settings.maxErrors) inputs tss) := by
  have hinputs : r.command.inputs = inputs := by
    rw [hcommand]
    rfl
  rw [hinputs] at hne hfits
  have hcheck := result_check_eq (maxErrors <|> settings.maxErrors) hne hfits hread
  -- The same for a check, file by file.
  cases htokens : sources.mapM tokenize with
  | error fault =>
    obtain ⟨before, source, after, rfl, -, hsource⟩ := exists_of_mapM_eq_error htokens
    obtain ⟨rfl, hover⟩ := overflows_of_tokenize hfits hread (by simp) hsource
    rw [htokens] at hcheck
    obtain ⟨-, hfault⟩ := execute_check_of_error hcheck
    rw [← hcommand] at hfault
    rw [← hinputs] at hover
    exact .inr ⟨runRequest_of_fault hload hfault, hover⟩
  | ok tss =>
    rw [htokens] at hcheck
    obtain ⟨hlines, hresult⟩ := execute_check_of_ok hcheck
    rw [← hcommand] at hlines hresult
    have hshown := hlines.shown Report.isDetail_of_mem_written (r.verbose || settings.verbose)
    by_cases hzero : (Report.ofTokens (maxErrors <|> settings.maxErrors) inputs tss).errors = 0
    · rw [if_pos hzero] at hresult
      refine .inl ⟨_, runRequest_of_ok hload hresult, tss, rfl,
        Outcome.checks_of_lines ?_ rfl ?_⟩
      · rw [if_pos hzero]
      · rw [Report.lines, if_pos hzero, List.append_nil]
        exact hshown
    · rw [if_neg hzero] at hresult
      refine .inl ⟨_, runRequest_of_failure hload hresult, tss, rfl,
        Outcome.checks_of_lines ?_ rfl ?_⟩
      · rw [if_neg hzero]
      · rw [Report.lines, if_neg hzero]
        exact hshown.append _

/-- What every answer has the answer of a run has. -/
theorem Answers.of_ok {p : Outcome → Prop} (h : Answers env files r p)
    (ho : runRequest env files r = .ok o) : p o := by
  rcases h with ⟨o', ho', hp⟩ | ⟨hfault, -⟩
  · obtain rfl := Except.ok.inj (ho'.symm.trans ho)
    exact hp
  · rw [hfault] at ho
    cases ho

/-- A run is closed in any case. -/
theorem answers_closed (hne : r.command.inputs ≠ []) (hfits : Fits files r.command.inputs) :
    Answers env files r Outcome.Closed := by
  -- Either something fails before the first scan, or the command runs to its end.
  rcases firstFailure_or env files r with ⟨f, hf⟩ | ⟨settings, sources, hload, hformat, hread⟩
  · exact (answers_of_firstFailure hfits hf).imp (fun ⟨o, ho, h⟩ => ⟨o, ho, h.closed⟩) id
  · cases hcommand : r.command with
    | tokens inputs asked spans =>
      obtain ⟨format, hresolve⟩ := hformat inputs asked spans hcommand
      rw [hcommand] at hread
      exact (answers_of_tokens hne hfits hcommand hload hresolve hread).imp
        (fun ⟨o, ho, scannedFiles, hscanned, h⟩ => ⟨o, ho, h.closed⟩) id
    | check inputs maxErrors =>
      rw [hcommand] at hread
      exact (answers_of_check hne hfits hcommand hload hread).imp
        (fun ⟨o, ho, tss, htss, h⟩ => ⟨o, ho, h.closed Report.findings_ofTokens⟩) id

/-! ## All or nothing -/

/-- How a run ends that a request has started. -/
structure Ends (env : Environment) (files : Files) (r : Request) (o : Outcome) : Prop where
  exit_eq : o.exit = 0 ∨ o.exit = 1
  /-- What is last written beside the log starts like an error just where the run fails. -/
  exit_eq_one_iff : o.exit = 1 ↔
    ∃ s, o.messages.getLast? = some s ∧ "Error:".toList <+: s.toList
  /-- Line by line, with what line feeds in paths cut off from the log: the last line beside the
      log reports an error just where the run fails. -/
  exit_eq_one_iff_line : o.exit = 1 ↔
    ∃ line, o.messageLines.getLast? = some line ∧ IsErrorLine line
  fails : ∀ line, FirstError env files r line → o.Fails line
  tokens_exit_eq_zero_iff : ∀ inputs asked spans, r.command = .tokens inputs asked spans →
    (o.exit = 0 ↔ ∃ settings format, Configured env files r.config settings ∧
      Format.ofName? (asked.getD settings.format) = some format ∧
      ∀ path ∈ inputs, files.HoldsText path)
  tokens_output_eq : ∀ inputs asked spans, r.command = .tokens inputs asked spans →
    o.exit ≠ 0 → o.output = ""
  dumps : ∀ inputs asked spans settings format sources, r.command = .tokens inputs asked spans →
    Configured env files r.config settings →
    Format.ofName? (asked.getD settings.format) = some format →
    List.Forall₂ files.HoldsSource inputs sources →
    ∃ scannedFiles : List Dump.File,
      List.Forall₂ (fun s f => f.path = s.1 ∧ tokenize s.2 = .ok f.tokens) (inputs.zip sources)
        scannedFiles ∧
      o.Dumps format (spans || settings.showSpans) scannedFiles
  check_output_eq : ∀ inputs maxErrors, r.command = .check inputs maxErrors → o.output = ""
  check_fails : ∀ inputs maxErrors, r.command = .check inputs maxErrors →
    (∃ line, ConfigurationError env files r.config line) ∨
      (∃ path ∈ inputs, ¬ files.HoldsText path) →
    ∃ line, FirstError env files r line ∧ o.Fails line
  checks : ∀ inputs maxErrors settings sources, r.command = .check inputs maxErrors →
    Configured env files r.config settings →
    List.Forall₂ files.HoldsSource inputs sources →
    ∃ tss, List.Forall₂ (fun source ts => tokenize source = .ok ts) sources tss ∧
      o.Checks (.ofTokens (maxErrors <|> settings.maxErrors) inputs tss)

/-! ### The answers of a run, stage by stage -/

section Answered

variable (hne : r.command.inputs ≠ []) (hfits : Fits files r.command.inputs)
  (ho : runRequest env files r = .ok o)

include hne hfits ho

/-- A dump fails at one of its stages, or it succeeds as they all do. -/
theorem fails_or_dumps {inputs : List String} {asked : Option String} {spans : Bool}
    (hcommand : r.command = .tokens inputs asked spans) :
    (∃ line, FirstError env files r line ∧ o.Fails line) ∨
      o.exit = 0 ∧ ∃ settings format, Configured env files r.config settings ∧
        Format.ofName? (asked.getD settings.format) = some format ∧
        ∀ path ∈ inputs, files.HoldsText path := by
  rcases firstFailure_or env files r with ⟨f, hf⟩ | ⟨settings, sources, hload, hformat, hread⟩
  · exact .inl ⟨_, firstError_iff.2 ⟨f, hf, rfl⟩, (answers_of_firstFailure hfits hf).of_ok ho⟩
  · obtain ⟨format, hresolve⟩ := hformat inputs asked spans hcommand
    rw [hcommand] at hread
    have hinputs := forall_exists_of_mapM_eq_ok hread
    obtain ⟨_, -, hdump⟩ := (answers_of_tokens hne hfits hcommand hload hresolve hread).of_ok ho
    exact .inr ⟨hdump.exit_eq, settings, format, loadSettings_eq_ok_iff.1 hload,
      resolve_eq_ok_iff.1 hresolve, fun path hpath => Files.holdsText_iff.2 (hinputs path hpath)⟩

/-- A check fails at one of its stages, or it writes nothing but its report. -/
theorem fails_or_checks {inputs : List String} {maxErrors : Option Nat}
    (hcommand : r.command = .check inputs maxErrors) :
    (∃ line, FirstError env files r line ∧ o.Fails line) ∨
      o.output = "" ∧ (∃ settings, loadSettings env files r.config = .ok settings) ∧
        ∀ path ∈ inputs, files.HoldsText path := by
  rcases firstFailure_or env files r with ⟨f, hf⟩ | ⟨settings, sources, hload, -, hread⟩
  · exact .inl ⟨_, firstError_iff.2 ⟨f, hf, rfl⟩, (answers_of_firstFailure hfits hf).of_ok ho⟩
  · rw [hcommand] at hread
    have hinputs := forall_exists_of_mapM_eq_ok hread
    obtain ⟨_, -, hchecks⟩ := (answers_of_check hne hfits hcommand hload hread).of_ok ho
    exact .inr ⟨hchecks.output_eq, ⟨settings, hload⟩,
      fun path hpath => Files.holdsText_iff.2 (hinputs path hpath)⟩

/-- A dump whose stages all succeed writes the tokens of all its files. -/
theorem dumps_of_configured {inputs sources : List String} {asked : Option String} {spans : Bool}
    {format : Format} (hcommand : r.command = .tokens inputs asked spans)
    (hload : Configured env files r.config settings)
    (hformat : Format.ofName? (asked.getD settings.format) = some format)
    (hsources : List.Forall₂ files.HoldsSource inputs sources) :
    ∃ scannedFiles : List Dump.File,
      List.Forall₂ (fun s f => f.path = s.1 ∧ tokenize s.2 = .ok f.tokens) (inputs.zip sources)
        scannedFiles ∧
      o.Dumps format (spans || settings.showSpans) scannedFiles := by
  obtain ⟨scannedFiles, hscanned, hdump⟩ :=
    (answers_of_tokens hne hfits hcommand (loadSettings_eq_ok_iff.2 hload)
      (resolve_eq_ok_iff.2 hformat) (mapM_readSource_eq_ok_iff.2 hsources)).of_ok ho
  exact ⟨scannedFiles, scanned_eq_ok_iff.1 hscanned, hdump⟩

/-- A check whose stages all succeed reports on the tokens of all its files. -/
theorem checks_of_configured {inputs sources : List String} {maxErrors : Option Nat}
    (hcommand : r.command = .check inputs maxErrors)
    (hload : Configured env files r.config settings)
    (hsources : List.Forall₂ files.HoldsSource inputs sources) :
    ∃ tss, List.Forall₂ (fun source ts => tokenize source = .ok ts) sources tss ∧
      o.Checks (.ofTokens (maxErrors <|> settings.maxErrors) inputs tss) := by
  obtain ⟨tss, htss, hchecks⟩ :=
    (answers_of_check hne hfits hcommand (loadSettings_eq_ok_iff.2 hload)
      (mapM_readSource_eq_ok_iff.2 hsources)).of_ok ho
  exact ⟨tss, mapM_eq_ok_iff.1 htss, hchecks⟩

/-- The end of a request that is served, stage by stage. -/
theorem ends_of_runRequest : Ends env files r o := by
  have hclosed := (answers_closed hne hfits).of_ok ho
  exact {
    exit_eq := hclosed.exit_eq
    exit_eq_one_iff := hclosed.exit_eq_one_iff_startsWith
    exit_eq_one_iff_line := hclosed.exit_eq_one_iff
    fails := by
      intro line hline
      obtain ⟨f, hf, rfl⟩ := firstError_iff.1 hline
      exact (answers_of_firstFailure hfits hf).of_ok ho
    tokens_exit_eq_zero_iff := by
      intro inputs asked spans hcommand
      constructor
      · intro hzero
        rcases fails_or_dumps hne hfits ho hcommand with ⟨line, -, hfails⟩ | ⟨-, hstages⟩
        · rw [hfails.exit_eq] at hzero
          cases hzero
        · exact hstages
      · rintro ⟨settings, format, hload, hformat, hinputs⟩
        obtain ⟨sources, hread⟩ := exists_mapM_eq_ok fun path hpath =>
          Files.holdsText_iff.1 (hinputs path hpath)
        obtain ⟨_, -, hdump⟩ := dumps_of_configured hne hfits ho hcommand hload hformat
          (mapM_readSource_eq_ok_iff.1 hread)
        exact hdump.exit_eq
    tokens_output_eq := by
      intro inputs asked spans hcommand hexit
      rcases fails_or_dumps hne hfits ho hcommand with ⟨line, -, hfails⟩ | ⟨hzero, -⟩
      · exact hfails.output_eq
      · exact absurd hzero hexit
    dumps := fun _ _ _ _ _ _ => dumps_of_configured hne hfits ho
    check_output_eq := by
      intro inputs maxErrors hcommand
      rcases fails_or_checks hne hfits ho hcommand with ⟨line, -, hfails⟩ | ⟨houtput, -⟩
      · exact hfails.output_eq
      · exact houtput
    check_fails := by
      intro inputs maxErrors hcommand hfailure
      -- Had no stage failed, the configuration would have loaded and every file been read.
      refine (fails_or_checks hne hfits ho hcommand).resolve_right ?_
      rintro ⟨-, ⟨settings, hload⟩, hinputs⟩
      rcases hfailure with ⟨line, hline⟩ | ⟨path, hpath, hnone⟩
      · obtain ⟨f, hf, -⟩ := configurationError_iff.1 hline
        rw [hload] at hf
        cases hf
      · exact hnone (hinputs path hpath)
    checks := fun _ _ _ _ => checks_of_configured hne hfits ho }

end Answered

/-- The stages that come after one that fails have no effect on a run, and the format has none on
    a check. -/
structure Staged (env : Environment) (files : Files) (args : List String) (r : Request) : Prop where
  configuration : ∀ line, ConfigurationError env files r.config line →
    run env files args = .ok ⟨1, "", [.plain line], !r.noColor⟩
  format : ∀ settings inputs asked spans line, Configured env files r.config settings →
    r.command = .tokens inputs asked spans → FormatError settings.format asked line →
    run env files args = .ok ⟨1, "", [.plain line], !r.noColor⟩
  /-- A dump that fails does so before it scans any file, whatever its files hold. -/
  tokens_fails : ∀ inputs asked spans line, r.command = .tokens inputs asked spans →
    FirstError env files r line → ∃ o, run env files args = .ok o ∧ o.Fails line
  /-- Behind a file that cannot be read other files may be named, and those named may hold
      anything. -/
  input : ∀ before path after, r.command.inputs = before ++ path :: after →
    ¬ files.HoldsText path →
    ∀ env' files' args' after',
      read env'.vars args' = .ok (r.withInputs (before ++ path :: after')) →
      loadSettings env' files' r.config = loadSettings env files r.config →
      (∀ p ∈ before ++ [path], files'.readSource p = files.readSource p) →
      run env' files' args' = run env files args
  check_format : ∀ inputs maxErrors, r.command = .check inputs maxErrors →
    ∀ settings name env' files' args', read env'.vars args' = .ok r →
      Configured env files r.config settings →
      Configured env' files' r.config { settings with format := name } →
      (∀ p ∈ inputs, files'.readSource p = files.readSource p) →
      run env' files' args' = run env files args

/-- The stages of a run, with the line counter's overflow as the only way out. -/
theorem staged_of_read {args : List String} (hread : read env.vars args = .ok r) :
    Staged env files args r where
  configuration line hline := by
    obtain ⟨f, hload, rfl⟩ := configurationError_iff.1 hline
    rw [run_eq hread, runRequest_of_configuration hload]
  format settings inputs asked spans line hload hcommand hline := by
    obtain ⟨f, hformat, rfl⟩ := formatError_iff.1 hline
    rw [run_eq hread, runRequest_of_format (loadSettings_eq_ok_iff.2 hload) hcommand hformat]
  tokens_fails inputs asked spans line hcommand hline := by
    obtain ⟨f, hf, rfl⟩ := firstError_iff.1 hline
    rw [run_eq hread]
    exact exists_fails_of_tokens hcommand hf
  input before path after hinputs hnone env' files' args' after' hread' hload hsame := by
    obtain ⟨f, hpath⟩ := exists_error_of_not_holdsText hnone
    have hpath' : files'.readSource path = .error f := by
      rw [hsame path (List.mem_append_right before List.mem_cons_self), hpath]
    rw [run_eq hread, run_eq hread']
    refine runRequest_congr rfl rfl hload fun settings => ?_
    -- Both commands do what they do without the files behind the one that cannot be read.
    have hsources : ∀ p ∈ (r.command.withInputs (before ++ [path])).inputs,
        files'.readSource p = files.readSource p := by
      rwa [Command.inputs_withInputs]
    calc execute files' settings (r.command.withInputs (before ++ path :: after'))
      _ = execute files' settings (r.command.withInputs (before ++ [path])) :=
        execute_of_unreadable r.command hpath'
      _ = execute files settings (r.command.withInputs (before ++ [path])) :=
        execute_congr hsources
      _ = execute files settings (r.command.withInputs (before ++ path :: after)) :=
        (execute_of_unreadable r.command hpath).symm
      _ = execute files settings r.command := by
        rw [← hinputs, Command.withInputs_inputs]
  check_format inputs maxErrors hcommand settings name env' files' args' hread' hload hload'
      hsame := by
    rw [run_eq hread, run_eq hread']
    have hexecute : execute files' { settings with format := name } r.command =
        execute files settings r.command := by
      rw [hcommand]
      exact execute_congr (c := .check inputs maxErrors) hsame
    simp only [runRequest, loadSettings_eq_ok_iff.2 hload, loadSettings_eq_ok_iff.2 hload',
      hexecute]

/-- A run that is not refused goes through its stages in order and ends all or nothing, unless some
    file holds more lines than can be counted. -/
theorem run_all_or_nothing {env : Environment} {files : Files} {args : List String} {r : Request}
    (hread : read env.vars args = .ok r) (hfits : Fits files r.command.inputs) :
    ((∃ o, run env files args = .ok o ∧ Ends env files r o) ∨
      (run env files args = .error .lineOverflow ∧ Overflows files r.command.inputs)) ∧
    Staged env files args r := by
  have hne := inputs_ne_nil_of_read hread
  refine ⟨?_, staged_of_read hread⟩
  rw [run_eq hread]
  rcases answers_closed hne hfits with ⟨o, ho, -⟩ | hfault
  · exact .inl ⟨o, ho, ends_of_runRequest hne hfits ho⟩
  · exact .inr hfault

/-- Two files, the second with an error, and a configuration that asks for spans. -/
def printedFiles : Files
  | "quillt.toml" => .file (Utf8.encode "[output]\nshow_spans = true".toList)
  | "a" => .file (Utf8.encode "x\n\"é\"".toList)
  | "b" => .file (Utf8.encode "@".toList)
  | _ => .missing

/-- A dump of both files. -/
def printedDump : Outcome :=
  ⟨0, "==> a <==\n" ++
    "   1 IDENTIFIER           x @0..1\n" ++
    "   2 STRING               \\\"é\\\" @2..6\n" ++
    "   2 EOF                   @6..6\n" ++
    "==> b <==\n" ++
    "   1 ERROR                Unexpected character. @0..1\n" ++
    "   1 EOF                   @1..1\n", [], true⟩

/-- A check of both files. -/
def printedCheck : Outcome :=
  ⟨1, "", [.plain "b:1: Unexpected character.", .event (.checkFinished 2 3 1),
    .plain "Error: CommandExecution(\"1 lexical error(s) found\")"], true⟩

/-- A check that comes to a file that is not there. -/
def printedFailure : Outcome :=
  ⟨1, "", [.plain "Error: Validation(\"Input path is not a file: none\")"], true⟩

/-- A dump of two files that is written in full, a check that lists what it finds, and one that
    comes to a missing file and lists nothing of the file before. -/
theorem run_all_or_nothing_printed :
    (run {} printedFiles ["tokens", "a", "b"] = .ok printedDump ∧
      Ends {} printedFiles ⟨false, false, none, .tokens ["a", "b"] none false⟩ printedDump) ∧
    (run {} printedFiles ["check", "a", "b"] = .ok printedCheck ∧
      Ends {} printedFiles ⟨false, false, none, .check ["a", "b"] none⟩ printedCheck) ∧
    run {} printedFiles ["check", "b", "none"] = .ok printedFailure ∧
      Ends {} printedFiles ⟨false, false, none, .check ["b", "none"] none⟩ printedFailure := by
  have htokens : read {} ["tokens", "a", "b"] =
      .ok ⟨false, false, none, .tokens ["a", "b"] none false⟩ := by decide +kernel
  have hcheck : read {} ["check", "a", "b"] =
      .ok ⟨false, false, none, .check ["a", "b"] none⟩ := by decide +kernel
  have hmissing : read {} ["check", "b", "none"] =
      .ok ⟨false, false, none, .check ["b", "none"] none⟩ := by decide +kernel
  have hfits : Fits printedFiles ["a", "b"] := fits_of_all (by decide +kernel)
  have hfits' : Fits printedFiles ["b", "none"] := fits_of_all (by decide +kernel)
  have hdump : run {} printedFiles ["tokens", "a", "b"] = .ok printedDump := by decide +kernel
  have hfound : run {} printedFiles ["check", "a", "b"] = .ok printedCheck := by decide +kernel
  have hfails : run {} printedFiles ["check", "b", "none"] = .ok printedFailure := by
    decide +kernel
  refine ⟨⟨hdump, ?_⟩, ⟨hfound, ?_⟩, hfails, ?_⟩
  · rcases (@run_all_or_nothing {} printedFiles _ _ htokens hfits).1 with ⟨o, ho, h⟩ | ⟨hfault, -⟩
    · obtain rfl := Except.ok.inj (ho.symm.trans hdump)
      exact h
    · cases hfault.symm.trans hdump
  · rcases (@run_all_or_nothing {} printedFiles _ _ hcheck hfits).1 with ⟨o, ho, h⟩ | ⟨hfault, -⟩
    · obtain rfl := Except.ok.inj (ho.symm.trans hfound)
      exact h
    · cases hfault.symm.trans hfound
  · rcases (@run_all_or_nothing {} printedFiles _ _ hmissing hfits').1 with
      ⟨o, ho, h⟩ | ⟨hfault, -⟩
    · obtain rfl := Except.ok.inj (ho.symm.trans hfails)
      exact h
    · cases hfault.symm.trans hfails

end Lexis.Run

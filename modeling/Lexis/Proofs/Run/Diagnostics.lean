/-
  Lexis.Proofs.Run.Diagnostics

  Options on what a run says do not change what it does.

  Each theorem is about two runs that read requests and load settings which differ in one respect:
  how much is logged, whether the log has color, or how many errors a check lists of each file. The
  commands do the same in both, and only what is shown of it differs.
-/

import Lexis.Proofs.Run.Limits
import Lexis.Proofs.Run.Request

namespace Lexis

/-- The event that a line is. -/
def Line.event? : Line → Option Event
  | .event e => some e
  | .plain _ => none

theorem Line.event?_event (e : Event) : (Line.event e).event? = some e := rfl

/-- Details are what is logged at the level of debugging. -/
theorem Event.level_ne_debug (e : Event) : decide (e.level ≠ "DEBUG") = !e.isDetail := by
  unfold level
  cases e.isDetail <;> decide

/-- The same settings for a run that is not verbose. -/
def Settings.silent (s : Settings) : Settings :=
  { s with verbose := false }

/-- The same settings without a limit. -/
def Settings.unlimited (s : Settings) : Settings :=
  { s with maxErrors := none }

namespace Run

open Check CommandLine

variable {env env' : Environment} {files files' : Files} {r r' : Request} {o o' : Outcome}

/-! ## What is shown of some lines -/

theorem filter_isShown_true (lines : List Line) : lines.filter (isShown true) = lines := by
  refine List.filter_eq_self.2 fun l _ => ?_
  cases l <;> rfl

/-- Hiding details hides no message: findings and reports are none. -/
theorem filterMap_message?_filter (verbose : Bool) (lines : List Line) :
    (lines.filter (isShown verbose)).filterMap Line.message? = lines.filterMap Line.message? := by
  rw [List.filterMap_filter]
  refine List.filterMap_congr fun l _ => ?_
  cases l with
  | event e => exact ite_self none
  | plain s => rfl

theorem filterMap_event?_filter (verbose : Bool) (lines : List Line) :
    (lines.filter (isShown verbose)).filterMap Line.event? =
      (lines.filterMap Line.event?).filter fun e => verbose || !e.isDetail := by
  rw [List.filterMap_filter, List.filter_filterMap]
  refine List.filterMap_congr fun l _ => ?_
  cases l with
  | event e =>
    rw [Line.event?_event, Option.filter_some]
    rfl
  | plain s => rfl

namespace Outcome

theorem events_eq (o : Outcome) : o.events = o.lines.filterMap Line.event? := rfl

/-- Where no line feed cuts an event in two, only messages stand beside the log. -/
theorem messageLines_eq (h : ∀ e ∈ o.events, '\n' ∉ e.text.toList) :
    o.messageLines = o.messages.flatMap brokenLines := by
  obtain ⟨exit, output, lines, color⟩ := o
  change ∀ e ∈ lines.filterMap Line.event?, _ at h
  show lines.flatMap _ = (lines.filterMap Line.message?).flatMap brokenLines
  -- A plain line is broken at its line feeds; an event has none, so nothing of it is left over.
  induction lines with
  | nil => rfl
  | cons l lines ih =>
    cases l with
    | plain s => rw [List.flatMap_cons, ih h]; rfl
    | event e =>
      rw [List.filterMap_cons_some (Line.event?_event e)] at h
      obtain ⟨he, hlines⟩ := List.forall_mem_cons.1 h
      have hone : brokenLines e.text = [e.text] := by
        rw [brokenLines, List.splitOn_eq_singleton he, List.map_singleton, String.ofList_toList]
      rw [List.flatMap_cons, ih hlines]
      show (brokenLines e.text).tail ++ _ = _
      rw [hone]
      rfl

end Outcome

/-! ## Two runs -/

/-- Two runs pass the same limit, or what they leave behind is related. -/
inductive Compared (p : Outcome → Outcome → Prop) :
    Except Fault Outcome → Except Fault Outcome → Prop where
  | ok {o o' : Outcome} (h : p o o') : Compared p (.ok o) (.ok o')
  | fault (fault : Fault) : Compared p (.error fault) (.error fault)

/-- Whether the run of a request is verbose. -/
def isVerbose (env : Environment) (files : Files) (r : Request) : Bool :=
  r.verbose || (loadSettings env files r.config).toOption.any Settings.verbose

/-- How many errors of each file a check lists that is asked for some number. -/
def limitOf (env : Environment) (files : Files) (config : Option String) (asked : Option Nat) :
    Option Nat :=
  asked <|> (loadSettings env files config).toOption.bind Settings.maxErrors

/-! ## Verbosity -/

/-- A run that leaves the same behind but for the details of the log. -/
structure Quieted (o o' : Outcome) : Prop where
  exit_eq : o'.exit = o.exit
  output_eq : o'.output = o.output
  color_eq : o'.color = o.color
  messages_eq : o'.messages = o.messages
  /-- Line by line, where no path cuts an event of the log in two. -/
  messageLines_eq : (∀ e ∈ o.events, '\n' ∉ e.text.toList) → o'.messageLines = o.messageLines
  events_eq : o'.events = o.events.filter (·.level ≠ "DEBUG")

/-- A run whose details are left out is the same run, quieted. -/
theorem quieted_of_lines (hexit : o'.exit = o.exit) (houtput : o'.output = o.output)
    (hcolor : o'.color = o.color) (hlines : o'.lines = o.lines.filter (isShown false)) :
    Quieted o o' := by
  have hmessages : o'.messages = o.messages := by
    rw [Outcome.messages, hlines, filterMap_message?_filter]
    rfl
  -- The details are the events of the lowest level.
  have hevents : o'.events = o.events.filter (·.level ≠ "DEBUG") := by
    rw [Outcome.events_eq, hlines, filterMap_event?_filter, Outcome.events_eq]
    exact List.filter_congr fun e _ => e.level_ne_debug.symm
  refine ⟨hexit, houtput, hcolor, hmessages, fun hfeeds => ?_, hevents⟩
  have hfeeds' : ∀ e ∈ o'.events, '\n' ∉ e.text.toList := by
    intro e he
    rw [hevents] at he
    exact hfeeds e (List.mem_filter.1 he).1
  rw [Outcome.messageLines_eq hfeeds, Outcome.messageLines_eq hfeeds', hmessages]

/-- A command that is run quietly. -/
theorem compared_ended (noColor : Bool) (x : Transcript String) :
    Compared Quieted (ended true noColor x) (ended false noColor x) := by
  unfold ended
  rw [filter_isShown_true]
  cases x.result with
  | ok output => exact .ok (quieted_of_lines rfl rfl rfl rfl)
  | error stop =>
    -- The report of a failure stands behind what was written, quiet or not.
    cases stop with
    | fault fault => exact .fault fault
    | failure f =>
      refine .ok (quieted_of_lines rfl rfl rfl ?_)
      rw [List.filter_append]
      rfl

/-- What a command does has nothing to do with whether its run is verbose. -/
theorem execute_silent (files : Files) (settings : Settings) (c : Command) :
    execute files settings.silent c = execute files settings c := by
  cases c <;> rfl

/-- Two settings that both fail to load, or both load. -/
theorem map_eq_map_cases {α β : Type} {x y : Except Failure α} {f : α → β} (h : x.map f = y.map f) :
    (∃ e, x = .error e ∧ y = .error e) ∨ ∃ a b, x = .ok a ∧ y = .ok b ∧ f a = f b := by
  cases x with
  | error e =>
    cases y with
    | error e' => exact .inl ⟨e, rfl, by rw [Except.error.inj h]⟩
    | ok b => cases h
  | ok a =>
    cases y with
    | error e' => cases h
    | ok b => exact .inr ⟨a, b, rfl, rfl, Except.ok.inj h⟩

theorem isVerbose_of_load {settings : Settings}
    (hload : loadSettings env files r.config = .ok settings) :
    isVerbose env files r = (r.verbose || settings.verbose) := by
  rw [isVerbose, hload]
  rfl

/-- Requests that differ in their verbosity only are answered alike: as much is logged in both, or
    one is the other with its details left out. -/
theorem compared_verbose (hcommand : r'.command = r.command) (hcolor : r'.noColor = r.noColor)
    (hinputs : ∀ path ∈ r.command.inputs, files'.readSource path = files.readSource path)
    (hload : (loadSettings env' files' r'.config).map Settings.silent =
      (loadSettings env files r.config).map Settings.silent) :
    (isVerbose env' files' r' = isVerbose env files r →
      runRequest env' files' r' = runRequest env files r) ∧
    (isVerbose env files r = true → isVerbose env' files' r' = false →
      Compared Quieted (runRequest env files r) (runRequest env' files' r')) := by
  -- Both configurations load, or both fail with the same report.
  rcases map_eq_map_cases hload with ⟨f, hfails', hfails⟩ | ⟨s', s, hok', hok, hsilent⟩
  · rw [runRequest_of_configuration hfails, runRequest_of_configuration hfails', hcolor]
    exact ⟨fun _ => rfl, fun _ _ => .ok (quieted_of_lines rfl rfl rfl rfl)⟩
  · -- The commands are the same, since they do not know of verbosity.
    have hexecute : execute files' s' r'.command = execute files s r.command := by
      rw [hcommand, ← execute_silent, hsilent, execute_silent, execute_congr hinputs]
    rw [runRequest_eq_ended hok, runRequest_eq_ended hok', hexecute, hcolor,
      ← isVerbose_of_load hok, ← isVerbose_of_load hok']
    refine ⟨fun hsame => by rw [hsame], fun hverbose hquiet => ?_⟩
    rw [hverbose, hquiet]
    exact compared_ended r.noColor _

/-! ## Color -/

theorem ended_noColor (verbose noColor noColor' : Bool) (x : Transcript String) :
    ended verbose noColor' x =
      (ended verbose noColor x).map fun o => { o with color := !noColor' } := by
  unfold ended
  cases x.result with
  | ok output => rfl
  | error stop => cases stop <;> rfl

/-- Requests that differ in the color of the log only are answered alike but for that. -/
theorem runRequest_noColor (hcommand : r'.command = r.command) (hverbose : r'.verbose = r.verbose)
    (hinputs : ∀ path ∈ r.command.inputs, files'.readSource path = files.readSource path)
    (hload : loadSettings env' files' r'.config = loadSettings env files r.config) :
    runRequest env' files' r' =
      (runRequest env files r).map fun o => { o with color := !r'.noColor } := by
  cases hok : loadSettings env files r.config with
  | error f =>
    rw [hok] at hload
    rw [runRequest_of_configuration hok, runRequest_of_configuration hload]
    rfl
  | ok s =>
    rw [hok] at hload
    rw [runRequest_eq_ended hok, runRequest_eq_ended hload, hcommand, hverbose,
      execute_congr hinputs]
    exact ended_noColor _ r.noColor r'.noColor _

/-! ## Limits -/

/-- Runs of a check that write the same but for what they list of each file. -/
structure Relisted (files : Files) (paths : List String) (limit limit' : Option Nat)
    (o o' : Outcome) : Prop where
  exit_eq : o'.exit = o.exit
  output_eq : o'.output = o.output
  color_eq : o'.color = o.color
  events_eq : o'.events = o.events
  /-- Both write the report of one failure, or else first the errors of each file up to the limit
      and at last the same report if there are any errors. -/
  messages_eq : (∃ f : Failure, o.exit = 1 ∧ o.messages = [f.report] ∧ o'.messages = [f.report]) ∨
    ∃ last, (o.exit = 0 ∧ last = [] ∨ o.exit = 1 ∧ ∃ n, last = [(Failure.lexicalErrors n).report]) ∧
      o.messages =
        (paths.flatMap fun path => firstOf limit (errorsOf files path)).map Finding.text ++ last ∧
      o'.messages =
        (paths.flatMap fun path => firstOf limit' (errorsOf files path)).map Finding.text ++ last

theorem filterMap_message?_written (report : Report) :
    report.written.filterMap Line.message? = report.findings.map Finding.text := by
  rw [Report.written, List.filterMap_append, List.filterMap_map]
  show List.filterMap (fun f : Finding => some f.text) report.findings ++ [] = _
  rw [List.append_nil, List.filterMap_eq_map']

/-- The one event of a check's report says that it has finished. -/
theorem filterMap_event?_written (report : Report) :
    report.written.filterMap Line.event? =
      [.checkFinished report.files report.tokens report.errors] := by
  rw [Report.written, List.filterMap_append, List.filterMap_map]
  show List.filterMap (fun _ : Finding => none) report.findings ++ _ = _
  rw [List.filterMap_none]
  rfl

variable {limit limit' : Option Nat} {paths : List String}

/-- Runs that write the same details, then reports that are alike, and then the same. -/
theorem relisted_of_agree {details : List Line} {report report' : Report} {last : List String}
    {exit : Nat} (verbose color : Bool) (hdetails : ∀ l ∈ details, l.isDetail = true)
    (h : Agree limit limit' (paths.map (errorsOf files)) report report')
    (hlast : exit = 0 ∧ last = [] ∨ exit = 1 ∧ ∃ n, last = [(Failure.lexicalErrors n).report]) :
    Relisted files paths limit limit'
      ⟨exit, "", (details ++ report.written).filter (isShown verbose) ++ last.map Line.plain,
        color⟩
      ⟨exit, "", (details ++ report'.written).filter (isShown verbose) ++ last.map Line.plain,
        color⟩ := by
  -- Details are no messages, so only the findings and the last report are left.
  have hmessages : ∀ R : Report, ((details ++ R.written).filter (isShown verbose) ++
      last.map Line.plain).filterMap Line.message? = R.findings.map Finding.text ++ last := by
    intro R
    rw [List.filterMap_append, filterMap_message?_filter, List.filterMap_append,
      Line.filterMap_message?_details hdetails, filterMap_message?_written, List.nil_append,
      List.filterMap_map]
    exact congrArg _ (List.filterMap_some)
  refine ⟨rfl, rfl, rfl, ?_, .inr ⟨last, hlast, ?_, ?_⟩⟩
  · rw [Outcome.events_eq, Outcome.events_eq, List.filterMap_append, List.filterMap_append,
      filterMap_event?_filter, filterMap_event?_filter, List.filterMap_append,
      List.filterMap_append, filterMap_event?_written, filterMap_event?_written, h.files_eq,
      h.tokens_eq, h.errors_eq]
  · rw [Outcome.messages, hmessages, h.findings_eq, List.flatMap_map]
  · rw [Outcome.messages, hmessages, h.findings_eq', List.flatMap_map]

/-- A check under two limits. -/
theorem compared_check (verbose noColor : Bool) (files : Files) (limit limit' : Option Nat)
    (paths : List String) :
    Compared (Relisted files paths limit limit')
      (ended verbose noColor (checkCommand files limit paths >>= fun _ => pure ""))
      (ended verbose noColor (checkCommand files limit' paths >>= fun _ => pure "")) := by
  -- A check that stops has listed nothing yet; one that finishes differs in its findings.
  rcases checkCommand_limits files limit limit' paths with
    ⟨hsame, hquiet, stop, hstop⟩ | ⟨details, report, report', hdetails, hagree, hx, hy⟩
  · rw [hsame, Transcript.bind_error hstop]
    cases stop with
    | fault fault => exact .fault fault
    | failure f =>
      have hlines := ((detailsThen_of_quiet hquiet).shown (List.forall_mem_nil _) verbose).append
        [.plain f.report]
      have hmessages := Outcome.messages_eq (o := ⟨1, "", _, !noColor⟩) hlines
      exact .ok ⟨rfl, rfl, rfl, rfl, .inl ⟨f, rfl, hmessages, hmessages⟩⟩
  · rw [hx, hy]
    by_cases hzero : report.errors = 0
    · rw [if_pos hzero]
      have h := relisted_of_agree verbose (!noColor) hdetails hagree (.inl ⟨rfl, rfl⟩)
      simpa [ended, bind, pure] using Compared.ok h
    · rw [if_neg hzero]
      exact .ok (relisted_of_agree verbose (!noColor) hdetails hagree (.inr ⟨rfl, _, rfl⟩))

theorem limitOf_of_load {settings : Settings} {config : Option String}
    (hload : loadSettings env files config = .ok settings) (asked : Option Nat) :
    limitOf env files config asked = (asked <|> settings.maxErrors) := by
  rw [limitOf, hload]
  rfl

/-- Requests for a check that differ in the limit only are answered alike but for what is listed. -/
theorem compared_limits {asked asked' : Option Nat} (hcommand : r.command = .check paths asked)
    (hcommand' : r'.command = .check paths asked') (hverbose : r'.verbose = r.verbose)
    (hcolor : r'.noColor = r.noColor)
    (hinputs : ∀ path ∈ r.command.inputs, files'.readSource path = files.readSource path)
    (hload : (loadSettings env' files' r'.config).map Settings.unlimited =
      (loadSettings env files r.config).map Settings.unlimited) :
    Compared (Relisted files paths (limitOf env files r.config asked)
        (limitOf env' files' r'.config asked'))
      (runRequest env files r) (runRequest env' files' r') := by
  rcases map_eq_map_cases hload with ⟨f, hfails', hfails⟩ | ⟨s', s, hok', hok, hunlimited⟩
  · rw [runRequest_of_configuration hfails, runRequest_of_configuration hfails', hcolor]
    exact .ok ⟨rfl, rfl, rfl, rfl, .inl ⟨f, rfl, rfl, rfl⟩⟩
  -- Settings that agree but for the limit agree on verbosity.
  · have hsettings : s'.unlimited.verbose = s.unlimited.verbose :=
      congrArg Settings.verbose hunlimited
    change s'.verbose = s.verbose at hsettings
    rw [hcommand] at hinputs
    have hpaths : ∀ path ∈ paths, files'.readSource path = files.readSource path := hinputs
    have hcheck : checkCommand files' (asked' <|> s'.maxErrors) paths =
        checkCommand files (asked' <|> s'.maxErrors) paths := by
      rw [checkCommand, checkCommand, check_congr _ hpaths]
    rw [runRequest_eq_ended hok, runRequest_eq_ended hok', hcommand, hcommand', execute_check,
      execute_check, hcheck, hverbose, hcolor, hsettings, limitOf_of_load hok, limitOf_of_load hok']
    exact compared_check _ _ files _ _ paths

/-! ## All three -/

/-- Two runs whose requests and settings differ only in verbosity leave the same behind but for
    details of the log; if they differ only in color, nothing but the color of the log differs; and
    two checks that differ only in their limit write the same but for what they list, where the
    smaller limit lists a beginning of what the larger one lists of each file. -/
theorem run_diagnostics {env env' : Environment} {files files' : Files} {args args' : List String}
    {r r' : Request} (hread : read env.vars args = .ok r) (hread' : read env'.vars args' = .ok r')
    (hinputs : ∀ path ∈ r.command.inputs, files'.readSource path = files.readSource path) :
    (r'.command = r.command → r'.noColor = r.noColor →
      (loadSettings env' files' r'.config).map Settings.silent =
        (loadSettings env files r.config).map Settings.silent →
      (isVerbose env' files' r' = isVerbose env files r →
        run env' files' args' = run env files args) ∧
      (isVerbose env files r = true → isVerbose env' files' r' = false →
        Compared Quieted (run env files args) (run env' files' args'))) ∧
    (r'.command = r.command → r'.verbose = r.verbose →
      loadSettings env' files' r'.config = loadSettings env files r.config →
      run env' files' args' = (run env files args).map fun o => { o with color := !r'.noColor }) ∧
    ∀ paths asked asked', r.command = .check paths asked → r'.command = .check paths asked' →
      r'.verbose = r.verbose → r'.noColor = r.noColor →
      (loadSettings env' files' r'.config).map Settings.unlimited =
        (loadSettings env files r.config).map Settings.unlimited →
      Compared (Relisted files paths (limitOf env files r.config asked)
          (limitOf env' files' r'.config asked'))
        (run env files args) (run env' files' args') ∧
      (AtMost (limitOf env files r.config asked) (limitOf env' files' r'.config asked') →
        ∀ path, firstOf (limitOf env files r.config asked) (errorsOf files path) <+:
          firstOf (limitOf env' files' r'.config asked') (errorsOf files path)) := by
  rw [run_eq hread, run_eq hread']
  refine ⟨fun hcommand hcolor hload => compared_verbose hcommand hcolor hinputs hload,
    fun hcommand hverbose hload => runRequest_noColor hcommand hverbose hinputs hload, ?_⟩
  intro paths asked asked' hcommand hcommand' hverbose hcolor hload
  exact ⟨compared_limits hcommand hcommand' hverbose hcolor hinputs hload,
    fun hlimit path => firstOf_isPrefix hlimit _⟩

/-- The files of the samples with a configuration that asks for details. -/
def detailedFiles : Files
  | "quillt.toml" => .file (Utf8.encode "verbose = true".toList)
  | path => sampleFiles path

/-- A verbose check and a quiet one, the same without color, and a check that lists one of the two
    errors. -/
theorem run_diagnostics_sample :
    (Compared Quieted (run {} detailedFiles ["check", "a"])
        (run {} sampleFiles ["check", "a"]) ∧
      (run {} detailedFiles ["check", "a"]).map (·.events.length) = .ok 6 ∧
      (run {} sampleFiles ["check", "a"]).map (·.events) =
        .ok [.checkFinished 1 3 2]) ∧
    run { vars := { noColor := some "true" } } detailedFiles ["check", "a"] =
      (run {} detailedFiles ["check", "a"]).map (fun o => { o with color := false }) ∧
    Compared (Relisted detailedFiles ["a"] (some 1) none)
        (run {} detailedFiles ["check", "a", "--max-errors=1"])
        (run {} detailedFiles ["check", "a"]) ∧
      (run {} detailedFiles ["check", "a", "--max-errors=1"]).map
        (fun o => (o.messages.head?, o.messages.length)) =
          .ok (some "a:1: Unexpected character.", 2) ∧
      firstOf (some 1) (errorsOf detailedFiles "a") <+: errorsOf detailedFiles "a" ∧
      (errorsOf detailedFiles "a").length = 2 := by
  have hread : read {} ["check", "a"] = .ok ⟨false, false, none, .check ["a"] none⟩ := by
    decide +kernel
  have hcolor : read { noColor := some "true" } ["check", "a"] =
      .ok ⟨false, true, none, .check ["a"] none⟩ := by decide +kernel
  have hlimit : read {} ["check", "a", "--max-errors=1"] =
      .ok ⟨false, false, none, .check ["a"] (some 1)⟩ := by decide +kernel
  have hsame : ∀ path ∈ ["a"], sampleFiles.readSource path = detailedFiles.readSource path :=
    List.forall_mem_singleton.2 (by decide +kernel)
  have hloud := @run_diagnostics {} {} _ _ _ _ _ _ hread hread hsame
  have hplain := @run_diagnostics {} { vars := { noColor := some "true" } } detailedFiles
    detailedFiles _ _ _ _ hread hcolor fun _ _ => rfl
  have hlisted := @run_diagnostics {} {} detailedFiles detailedFiles _ _ _ _
    hlimit hread fun _ _ => rfl
  obtain ⟨hrelisted, hprefix⟩ := hlisted.2.2 ["a"] (some 1) none rfl rfl rfl rfl rfl
  have hone : limitOf {} detailedFiles none (some 1) = some 1 := rfl
  have hnone : limitOf {} detailedFiles none none = none := by decide +kernel
  rw [hone, hnone] at hrelisted hprefix
  exact ⟨⟨(hloud.1 rfl rfl (by decide +kernel)).2 (by decide +kernel) (by decide +kernel),
      by decide +kernel, by decide +kernel⟩,
    hplain.2.1 rfl rfl rfl, hrelisted, by decide +kernel, hprefix trivial "a", by decide +kernel⟩

end Run

end Lexis

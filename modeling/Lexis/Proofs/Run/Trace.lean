/-
  Lexis.Proofs.Run.Trace

  The log of a verbose run, event by event.

  `trace` writes the log down from the files and the lists of all tokens of their sources, without
  running anything. A run comes by its events in another way: loading, scanning and the commands
  each record their own as they go, and the two commands read and scan in different orders. That
  the two agree is shown part by part: `log` of a computation that goes on after another is the log
  of the one and then of the other.
-/

import Lexis.Proofs.Files.Source
import Lexis.Proofs.Run.Diagnostics

namespace Lexis

namespace Run

open Check CommandLine

/-! ## What the log should be -/

/-- How many bytes of the file at a path are the source: all but a mark at their beginning. -/
def sourceBytes (files : Files) (path : String) : Nat :=
  match files path with
  | .missing | .directory | .unreadable _ => 0
  | .file bytes =>
    (if Utf8.markBytes <+: bytes then bytes.drop Utf8.markBytes.length else bytes).length

/-- The event of a file that is loaded. -/
def loadedEvent (files : Files) (path : String) : Event :=
  .loadedSource path (sourceBytes files path)

/-- The event of each error token, with its message and where it stands. -/
def errorEvents (ts : List Token) : List Event :=
  (ts.filter (·.kind = .error)).map fun t => .lexicalError t.lexeme t.line t.span.start t.span.stop

/-- The sources that can be read before the first one that cannot, each with its path. -/
def readable (files : Files) : List String → List (String × String)
  | [] => []
  | path :: paths =>
    match files.readSource path with
    | .error _ => []
    | .ok source => (path, source) :: readable files paths

/-- The events of one file of a check. -/
def checkedEvents (files : Files) (f : Dump.File) : List Event :=
  loadedEvent files f.path ::
    (errorEvents f.tokens ++ [.checkedFile f.path (errorEvents f.tokens).length])

/-- A check loads and scans one file after the other, up to the first that cannot be read, and comes
    to a summary if there is none. -/
def checkTrace (files : Files) (paths : List String) : Except Fault (List Event) :=
  (scanned (readable files paths)).map fun scannedFiles =>
    .runningCommand "check" :: (scannedFiles.flatMap (checkedEvents files) ++
      if (readable files paths).length = paths.length then
        [.checkFinished paths.length (scannedFiles.map (·.tokens.length - 1)).sum
          (scannedFiles.flatMap (errorEvents ·.tokens)).length]
      else [])

/-- The events of one file of a dump, behind those of loading; only a text dump counts tokens. -/
def scannedEvents (format : Format) (f : Dump.File) : List Event :=
  errorEvents f.tokens ++
    match format with
    | .text => [.scannedFile f.path f.tokens.length]
    | .json => []

/-- A dump loads all files before it scans the first, and scans none if it cannot load them all. -/
def dumpTrace (files : Files) (format : Format) (paths : List String) : Except Fault (List Event) :=
  (if (readable files paths).length = paths.length then
    (scanned (readable files paths)).map (·.flatMap (scannedEvents format))
  else .ok []).map fun events =>
    .runningCommand "tokens" :: ((readable files paths).map (loadedEvent files ·.1) ++ events)

/-- The log of a command. One that passes a limit of the scanner ends the run at once. -/
def trace (files : Files) (settings : Settings) : Command → Except Fault (List Event)
  | .tokens inputs asked _ =>
    match Format.resolve asked settings.format with
    | .error _ => .ok []
    | .ok format => dumpTrace files format inputs
  | .check inputs _ => checkTrace files inputs

end Run

/-! ## The log of a computation -/

namespace Transcript

variable {α β : Type}

/-- The events that a computation records. -/
def events (x : Transcript α) : List Event :=
  x.lines.filterMap Line.event?

/-- The events of a computation, unless it passes a limit. -/
def log (x : Transcript α) : Except Fault (List Event) :=
  match x.result with
  | .error (.fault fault) => .error fault
  | .error (.failure _) | .ok _ => .ok x.events

theorem log_of_ok {x : Transcript α} {a : α} (h : x.result = .ok a) : x.log = .ok x.events := by
  simp only [log, h]

theorem log_of_fault {x : Transcript α} {fault : Fault} (h : x.result = .error (.fault fault)) :
    x.log = .error fault := by
  simp only [log, h]

theorem log_of_failure {x : Transcript α} {f : Failure} (h : x.result = .error (.failure f)) :
    x.log = .ok x.events := by
  simp only [log, h]

theorem events_bind_of_ok {x : Transcript α} {f : α → Transcript β} {a : α}
    (h : x.result = .ok a) : (x >>= f).events = x.events ++ (f a).events := by
  rw [events, lines_bind_ok h, List.filterMap_append]
  rfl

/-- The log of two stages of which the first succeeds. -/
theorem log_bind_of_ok {x : Transcript α} {f : α → Transcript β} {a : α} (h : x.result = .ok a) :
    (x >>= f).log = (f a).log.map (x.events ++ ·) := by
  unfold log
  rw [result_bind_ok h, events_bind_of_ok h]
  cases (f a).result with
  | ok b => rfl
  | error stop => cases stop <;> rfl

/-- A stage that fails is the last in the log. -/
theorem log_bind_of_error {x : Transcript α} {f : α → Transcript β} {stop : Stop}
    (h : x.result = .error stop) : (x >>= f).log = x.log := by
  unfold log events
  rw [bind_error h, h]
  cases stop <;> rfl

/-- What is made of a result at the end leaves what has been recorded as it is. -/
theorem events_bind_pure (x : Transcript α) (g : α → β) :
    (x >>= fun a => pure (g a)).events = x.events := by
  cases hresult : x.result with
  | error stop =>
    rw [bind_error hresult]
    rfl
  | ok a =>
    rw [events_bind_of_ok hresult]
    exact List.append_nil _

theorem log_bind_pure (x : Transcript α) (g : α → β) : (x >>= fun a => pure (g a)).log = x.log := by
  unfold log
  rw [events_bind_pure, result_bind]
  cases x.result with
  | ok a => rfl
  | error stop => cases stop <;> rfl

/-- A command in a run that shows everything leaves its own log. -/
theorem events_ended (noColor : Bool) (x : Transcript String) :
    (Run.ended true noColor x).map Run.Outcome.events = x.log := by
  unfold Run.ended log
  rw [Run.filter_isShown_true]
  cases x.result with
  | ok output => rfl
  | error stop =>
    -- A report is no event; a fault leaves no log.
    cases stop with
    | fault fault => rfl
    | failure f =>
      refine congrArg Except.ok ?_
      rw [Run.Outcome.events_eq, List.filterMap_append]
      exact List.append_nil _

end Transcript

namespace Run

open Check CommandLine

variable {files : Files} {path source : String} {paths : List String} {ts : List Token}
  {f : Failure}

/-! ## Loading and scanning -/

theorem sourceBytes_eq (hread : files.readSource path = .ok source) :
    sourceBytes files path = source.utf8ByteSize := by
  cases hentry : files path with
  | missing | directory | unreadable =>
    rw [Files.readSource, hentry] at hread
    cases hread
  | file bytes =>
    -- The bytes of the file are those of its text, with the mark in front or without.
    have hbytes := (Files.readSource_eq_ok_iff_bytes hentry).1 hread
    rw [sourceBytes, hentry, ← Text.byteSize_toList, Text.byteSize_eq_length_encode]
    show (if Utf8.markBytes <+: bytes then bytes.drop Utf8.markBytes.length else bytes).length = _
    split
    next hmark =>
      rw [if_pos hmark] at hbytes
      rw [hbytes]
      rfl
    next hmark =>
      rw [if_neg hmark, List.nil_append] at hbytes
      rw [hbytes]

theorem loadSource_of_ok (hread : files.readSource path = .ok source) :
    loadSource files path = ⟨[.event (loadedEvent files path)], .ok source⟩ := by
  rw [loadSource, hread, loadedEvent, sourceBytes_eq hread]
  rfl

/-- A scan records an event for each of its error tokens. -/
theorem events_recordScan (ts : List Token) :
    (recordScan (.ok ts)).events = ts.filterMap errorEvent? := by
  show ((ts.filterMap errorEvent?).map Line.event ++ []).filterMap Line.event? = _
  rw [List.append_nil, List.filterMap_map]
  exact List.filterMap_some

theorem tokens_eq_of_tokenize (hsize : source.utf8ByteSize ≤ maxSize)
    (h : tokenize source = .ok ts) : ts = tokens source := by
  rw [tokenize_eq (size_le_maxOffset hsize)] at h
  split at h
  · exact (Except.ok.inj h).symm
  · cases h

theorem events_scanFile (format : Format) (path : String) (hsize : source.utf8ByteSize ≤ maxSize)
    (h : tokenize source = .ok ts) :
    (scanFile format path source).events = scannedEvents format ⟨path, ts⟩ := by
  have hresult : (recordScan (tokenize source)).result = .ok ts := by
    rw [result_recordScan, h]
    rfl
  have herrors : ts.filterMap errorEvent? = errorEvents ts := by
    rw [tokens_eq_of_tokenize hsize h]
    exact filterMap_error?_tokens source fun t message =>
      Event.lexicalError message t.line t.span.start t.span.stop
  unfold scanFile
  rw [Transcript.events_bind_of_ok hresult, h, events_recordScan, herrors]
  cases format <;> rfl

/-- A file of a check leaves its events and adds its tokens to the tally. -/
theorem events_checkFile (maxErrors : Option Nat) (hread : files.readSource path = .ok source)
    (hsize : source.utf8ByteSize ≤ maxSize) (h : tokenize source = .ok ts) (tally : Tally) :
    (checkFile files maxErrors tally path).events = checkedEvents files ⟨path, ts⟩ := by
  obtain rfl := tokens_eq_of_tokenize hsize h
  -- The check draws all tokens but the end, which is no error.
  have hscan : (Scanner.ofSource source).collect.map (·.1) =
      .ok ((tokens source).filter (!·.isEof)) := by
    rw [Scanner.collect_ofSource (size_le_maxOffset hsize), h]
    rfl
  have herrors : ((tokens source).filter (!·.isEof)).filterMap errorEvent? =
      errorEvents (tokens source) :=
    filterMap_error?_drawn source fun t message =>
      Event.lexicalError message t.line t.span.start t.span.stop
  have hcount := (counted_foldl maxErrors tally path ((tokens source).filter (!·.isEof))).errors_eq
  rw [reported_tokens, List.length_map] at hcount
  unfold checkFile
  rw [loadSource_of_ok hread, Transcript.events_bind_of_ok rfl, hscan,
    Transcript.events_bind_of_ok rfl, events_recordScan, herrors]
  show [loadedEvent files path] ++ (errorEvents (tokens source) ++ [Event.checkedFile path
    (((tokens source).filter (!·.isEof)).foldl (Progress.count maxErrors path)
      (.start tally)).errors]) = _
  rw [hcount, checkedEvents, errorEvents, List.length_map]
  rfl

/-! ## Files in turn -/

theorem readable_of_ok (hread : files.readSource path = .ok source) :
    readable files (path :: paths) = (path, source) :: readable files paths := by
  rw [readable, hread]

theorem readable_of_error (hread : files.readSource path = .error f) :
    readable files (path :: paths) = [] := by
  rw [readable, hread]

theorem mem_readable {s : String × String} (h : s ∈ readable files paths) :
    s.1 ∈ paths ∧ files.readSource s.1 = .ok s.2 := by
  induction paths with
  | nil => cases h
  | cons path paths ih =>
    cases hread : files.readSource path with
    | error f =>
      rw [readable_of_error hread] at h
      cases h
    | ok source =>
      rw [readable_of_ok hread] at h
      rcases List.mem_cons.1 h with rfl | h
      · exact ⟨List.mem_cons_self, hread⟩
      · exact (ih h).imp_left (List.mem_cons_of_mem path)

theorem Fits.readable_size_le (hfits : Fits files paths) :
    ∀ s ∈ readable files paths, s.2.utf8ByteSize ≤ maxSize := fun s hs =>
  hfits s.1 (mem_readable hs).1 s.2 (mem_readable hs).2

theorem scanned_cons_of_error {fault : Fault} (path : String) (sources : List (String × String))
    (h : tokenize source = .error fault) : scanned ((path, source) :: sources) = .error fault := by
  rw [scanned, List.mapM_cons]
  show (tokenize source).map (Dump.File.mk path) >>= _ = _
  rw [h]
  rfl

theorem scanned_cons_of_ok (path : String) (sources : List (String × String))
    (h : tokenize source = .ok ts) :
    scanned ((path, source) :: sources) = (scanned sources).map (⟨path, ts⟩ :: ·) := by
  rw [scanned, List.mapM_cons]
  show (tokenize source).map (Dump.File.mk path) >>= _ = _
  rw [h, scanned]
  cases sources.mapM fun s => (tokenize s.2).map (Dump.File.mk s.1) <;> rfl

/-- The files of a dump are scanned one after the other, each with its own events. -/
theorem log_mapM_scanFile (format : Format) {sources : List (String × String)}
    (hsize : ∀ s ∈ sources, s.2.utf8ByteSize ≤ maxSize) :
    (sources.mapM fun s => scanFile format s.1 s.2).log =
      (scanned sources).map (·.flatMap (scannedEvents format)) := by
  -- File by file; the first fault ends the log as it ends the scan.
  induction sources with
  | nil => rfl
  | cons s sources ih =>
    obtain ⟨path, source⟩ := s
    obtain ⟨hsource, hsources⟩ := List.forall_mem_cons.1 hsize
    have hfile := result_scanFile format path source
    rw [List.mapM_cons]
    cases htokens : tokenize source with
    | error fault =>
      rw [htokens] at hfile
      rw [Transcript.log_bind_of_error hfile, Transcript.log_of_fault hfile,
        scanned_cons_of_error path sources htokens]
      rfl
    | ok ts =>
      rw [htokens] at hfile
      rw [Transcript.log_bind_of_ok hfile, Transcript.log_bind_pure, ih hsources,
        events_scanFile format path hsource htokens, scanned_cons_of_ok path sources htokens]
      cases scanned sources <;> rfl

/-- A dump loads all that can be read, and goes on with it if that is all there is. -/
theorem mapM_loadNamed (files : Files) (paths : List String) :
    (paths.mapM (loadNamed files)).events = (readable files paths).map (loadedEvent files ·.1) ∧
      ((readable files paths).length = paths.length ∧
          (paths.mapM (loadNamed files)).result = .ok (readable files paths) ∨
        ¬ (readable files paths).length = paths.length ∧
          ∃ f, (paths.mapM (loadNamed files)).result = .error (.failure f)) := by
  -- All files before the first unreadable one are loaded, each with its event.
  induction paths with
  | nil => exact ⟨rfl, .inl ⟨rfl, rfl⟩⟩
  | cons path paths ih =>
    rw [List.mapM_cons]
    cases hread : files.readSource path with
    | error f =>
      have hload : loadNamed files path = ⟨[], .error (.failure f)⟩ := by
        rw [loadNamed, loadSource, hread]
        rfl
      rw [readable_of_error hread, hload]
      -- Nothing is loaded behind it.
      exact ⟨rfl, .inr ⟨Nat.succ_ne_zero _ ∘ Eq.symm, f, rfl⟩⟩
    | ok source =>
      have hload : loadNamed files path =
          ⟨[.event (loadedEvent files path)], .ok (path, source)⟩ := by
        rw [loadNamed, loadSource_of_ok hread]
        rfl
      obtain ⟨hevents, hresult⟩ := ih
      rw [readable_of_ok hread, hload, Transcript.events_bind_of_ok rfl,
        Transcript.events_bind_pure, Transcript.result_bind_ok rfl, hevents, List.length_cons,
        List.length_cons, Nat.succ_inj]
      refine ⟨rfl, ?_⟩
      rcases hresult with ⟨hlength, hresult⟩ | ⟨hlength, f, hresult⟩
      · rw [Transcript.result_bind_ok hresult]
        exact .inl ⟨hlength, rfl⟩
      · rw [Transcript.bind_error hresult]
        exact .inr ⟨hlength, f, rfl⟩

/-- A check goes on file by file, as long as they can be read and scanned. -/
theorem foldlM_checkFile (maxErrors : Option Nat) (hfits : Fits files paths) (tally : Tally) :
    (∃ fault, scanned (readable files paths) = .error fault ∧
      (paths.foldlM (checkFile files maxErrors) tally).result = .error (.fault fault)) ∨
    ∃ scannedFiles, scanned (readable files paths) = .ok scannedFiles ∧
      (paths.foldlM (checkFile files maxErrors) tally).events =
        scannedFiles.flatMap (checkedEvents files) ∧
      ((readable files paths).length = paths.length ∧
          (paths.foldlM (checkFile files maxErrors) tally).result =
            .ok (tally.addFiles maxErrors paths (scannedFiles.map (·.tokens))) ∨
        ¬ (readable files paths).length = paths.length ∧
          ∃ f, (paths.foldlM (checkFile files maxErrors) tally).result = .error (.failure f)) := by
  -- On the files to come, with the tally that the files before have left.
  induction paths generalizing tally with
  | nil =>
    exact .inr ⟨[], rfl, rfl, .inl ⟨rfl, congrArg Except.ok (tally.addFiles_nil maxErrors).symm⟩⟩
  | cons path paths ih =>
    rw [List.foldlM_cons]
    cases hread : files.readSource path with
    | error f =>
      have hfile : checkFile files maxErrors tally path = ⟨[], .error (.failure f)⟩ := by
        rw [checkFile, loadSource, hread]
        rfl
      rw [readable_of_error hread, hfile]
      exact .inr ⟨[], rfl, rfl, .inr ⟨Nat.succ_ne_zero _ ∘ Eq.symm, f, rfl⟩⟩
    | ok source =>
      obtain ⟨hpath, hpaths⟩ := List.forall_mem_cons.1 hfits
      have hresult := result_checkFile maxErrors hread (hpath source hread) tally
      rw [readable_of_ok hread]
      cases htokens : tokenize source with
      | error fault =>
        rw [htokens] at hresult
        rw [Transcript.bind_error hresult]
        exact .inl ⟨fault, scanned_cons_of_error path _ htokens, rfl⟩
      | ok ts =>
        rw [htokens] at hresult
        have hevents := events_checkFile maxErrors hread (hpath source hread) htokens tally
        rw [Transcript.result_bind_ok hresult, Transcript.events_bind_of_ok hresult, hevents,
          scanned_cons_of_ok path _ htokens, List.length_cons, List.length_cons, Nat.succ_inj]
        rcases ih hpaths (tally.addFiles maxErrors [path] [ts]) with
          ⟨fault, hscanned, hfault⟩ | ⟨scannedFiles, hscanned, hrest, hends⟩
        · exact .inl ⟨fault, by rw [hscanned]; rfl, hfault⟩
        · refine .inr ⟨⟨path, ts⟩ :: scannedFiles, by rw [hscanned]; rfl, ?_, ?_⟩
          · rw [hrest, List.flatMap_cons]
          · rw [List.map_cons, Tally.addFiles_cons]
            exact hends

/-! ## Commands -/

/-- The log of a rendering: the files in their order, each with its errors. -/
theorem log_render (format : Format) (spans : Bool) {sources : List (String × String)}
    (hsize : ∀ s ∈ sources, s.2.utf8ByteSize ≤ maxSize) :
    (render format spans sources).log =
      (scanned sources).map (·.flatMap (scannedEvents format)) := by
  rw [← log_mapM_scanFile format hsize]
  unfold render
  cases format <;> exact Transcript.log_bind_pure _ _

/-- The log of a dump is its trace. -/
theorem log_tokensCommand (format : Format) (spans : Bool) (hne : paths ≠ [])
    (hfits : Fits files paths) :
    (tokensCommand files format spans paths).log = dumpTrace files format paths := by
  obtain ⟨hevents, hresult⟩ := mapM_loadNamed files paths
  rw [tokensCommand, Transcript.log_bind_of_ok rfl, dump_eq _ _ _ hne, dumpTrace]
  rcases hresult with ⟨hlength, hresult⟩ | ⟨hlength, f, hresult⟩
  · rw [if_pos hlength, Transcript.log_bind_of_ok hresult, hevents,
      log_render format spans hfits.readable_size_le]
    cases scanned (readable files paths) <;> rfl
  · rw [if_neg hlength, Transcript.log_bind_of_error hresult, Transcript.log_of_failure hresult,
      hevents]
    exact congrArg Except.ok
      (congrArg (Event.runningCommand "tokens" :: ·) (List.append_nil _).symm)

theorem length_errorEvents (ts : List Token) :
    (errorEvents ts).length = ts.countP (·.kind = .error) := by
  rw [errorEvents, List.length_map, List.countP_eq_length_filter]

theorem log_checkCommand_of_ok {maxErrors : Option Nat} {report : Report}
    (h : (check files maxErrors paths).result = .ok report) :
    (checkCommand files maxErrors paths).log =
      .ok (.runningCommand "check" :: ((check files maxErrors paths).events ++
        [.checkFinished report.files report.tokens report.errors])) := by
  obtain ⟨hlines, hresult⟩ := lines_checkCommand_of_ok h
  have hevents : (checkCommand files maxErrors paths).events = .runningCommand "check" ::
      ((check files maxErrors paths).events ++
        [.checkFinished report.files report.tokens report.errors]) := by
    rw [Transcript.events, hlines, List.filterMap_append, filterMap_event?_written]
    rfl
  rw [← hevents]
  -- With errors the command fails, but its log is complete already.
  by_cases hzero : report.errors = 0
  · rw [if_pos hzero] at hresult
    exact Transcript.log_of_ok hresult
  · rw [if_neg hzero] at hresult
    exact Transcript.log_of_failure hresult

theorem log_checkCommand_of_error {maxErrors : Option Nat} {stop : Stop}
    (h : (check files maxErrors paths).result = .error stop) :
    (checkCommand files maxErrors paths).log =
      (check files maxErrors paths).log.map (.runningCommand "check" :: ·) := by
  rw [checkCommand, Transcript.log_bind_of_ok rfl, Transcript.log_bind_of_error h]
  rfl

theorem log_checkCommand (maxErrors : Option Nat) (hne : paths ≠ []) (hfits : Fits files paths) :
    (checkCommand files maxErrors paths).log = checkTrace files paths := by
  have hcheck := check_eq files maxErrors hne
  rcases foldlM_checkFile maxErrors hfits .empty with
    ⟨fault, hscanned, hfault⟩ | ⟨scannedFiles, hscanned, hevents, hends⟩
  · have hresult : (check files maxErrors paths).result = .error (.fault fault) := by
      rw [hcheck, Transcript.bind_error hfault]
    rw [log_checkCommand_of_error hresult, Transcript.log_of_fault hresult, checkTrace, hscanned]
    rfl
  · have hchecked : (check files maxErrors paths).events =
        scannedFiles.flatMap (checkedEvents files) := by
      rw [hcheck, Transcript.events_bind_pure, hevents]
    rw [checkTrace, hscanned]
    -- All files were read, or the check stopped in front of one that cannot be.
    rcases hends with ⟨hlength, hresult⟩ | ⟨hlength, f, hresult⟩
    · have hreport : (check files maxErrors paths).result =
          .ok (.ofTokens maxErrors paths (scannedFiles.map (·.tokens))) := by
        rw [hcheck, Transcript.result_bind_ok hresult]
        exact congrArg Except.ok (Tally.report_addFiles_empty maxErrors paths _)
      have herrors : ((scannedFiles.map (·.tokens)).map (·.countP (·.kind = .error))).sum =
          (scannedFiles.flatMap (errorEvents ·.tokens)).length := by
        rw [List.length_flatMap, List.map_map]
        exact congrArg List.sum (List.map_congr_left fun f _ => (length_errorEvents f.tokens).symm)
      rw [log_checkCommand_of_ok hreport, hchecked, Report.ofTokens, herrors, List.map_map,
        Fault.map_ok, if_pos hlength]
      rfl
    · have hfailed : (check files maxErrors paths).result = .error (.failure f) := by
        rw [hcheck, Transcript.bind_error hresult]
      rw [log_checkCommand_of_error hfailed, Transcript.log_of_failure hfailed, hchecked,
        Fault.map_ok, Fault.map_ok, if_neg hlength, List.append_nil]

/-- A command leaves the log that is written down for it. -/
theorem log_execute (settings : Settings) {c : Command} (hne : c.inputs ≠ [])
    (hfits : Fits files c.inputs) : (execute files settings c).log = trace files settings c := by
  cases c with
  | tokens inputs asked spans =>
    rw [trace]
    cases hformat : Format.resolve asked settings.format with
    | error f =>
      rw [execute_tokens_of_error hformat]
      rfl
    | ok format =>
      rw [execute_tokens_of_ok hformat]
      exact log_tokensCommand format _ hne hfits
  | check inputs maxErrors =>
    rw [execute_check, Transcript.log_bind_pure]
    exact log_checkCommand _ hne hfits

theorem overflows_of_trace {settings : Settings} {c : Command} {fault : Fault}
    (hfits : Fits files c.inputs) (h : trace files settings c = .error fault) :
    fault = .lineOverflow ∧ Overflows files c.inputs := by
  -- A trace is lost only where the tokens of some source cannot be had.
  suffices hscanned : scanned (readable files c.inputs) = .error fault by
    obtain ⟨hfault, s, hs, hlines⟩ :=
      overflow_of_scanned_eq_error hfits.readable_size_le hscanned
    obtain ⟨hpath, hread⟩ := mem_readable hs
    exact ⟨hfault, s.1, hpath, s.2, hread, hlines⟩
  cases c with
  | tokens inputs asked spans =>
    show scanned (readable files inputs) = .error fault
    rw [trace] at h
    cases hformat : Format.resolve asked settings.format with
    | error f =>
      rw [hformat] at h
      cases h
    | ok format =>
      rw [hformat] at h
      change dumpTrace files format inputs = .error fault at h
      rw [dumpTrace] at h
      split at h
      next =>
        cases hscanned : scanned (readable files inputs) with
        | ok scannedFiles =>
          rw [hscanned] at h
          cases h
        | error fault' =>
          rw [hscanned] at h
          cases h
          rfl
      next => cases h
  | check inputs maxErrors =>
    show scanned (readable files inputs) = .error fault
    rw [trace, checkTrace] at h
    cases hscanned : scanned (readable files inputs) with
    | ok scannedFiles =>
      rw [hscanned] at h
      cases h
    | error fault' =>
      rw [hscanned] at h
      cases h
      rfl

/-- The log of a verbose run is the trace of its command, from the first event to the last. Only a
    file with more lines than can be counted keeps a run from ending with it. -/
theorem run_events_eq_trace {env : Environment} {files : Files} {args : List String} {r : Request}
    {settings : Settings} (hread : read env.vars args = .ok r) (hfits : Fits files r.command.inputs)
    (hload : loadSettings env files r.config = .ok settings)
    (hverbose : (r.verbose || settings.verbose) = true) :
    (run env files args).map Outcome.events = trace files settings r.command ∧
      ∀ fault, run env files args = .error fault →
        fault = .lineOverflow ∧ Overflows files r.command.inputs := by
  have hne := inputs_ne_nil_of_read hread
  have hevents : (run env files args).map Outcome.events = trace files settings r.command := by
    rw [run_eq hread, runRequest_eq_ended hload, hverbose, Transcript.events_ended,
      log_execute settings hne hfits]
  refine ⟨hevents, fun fault hfault => ?_⟩
  rw [hfault] at hevents
  exact overflows_of_trace hfits hevents.symm

/-- A check that comes to a file that is not there, and a dump whose configuration is verbose. -/
theorem run_events_eq_trace_sample :
    (run {} sampleFiles ["-v", "check", "a", "none", "b"]).map Outcome.events =
        .ok [.runningCommand "check", .loadedSource "a" 27,
          .lexicalError "Unexpected character." 1 0 1,
          .lexicalError "Unexpected character." 1 26 27, .checkedFile "a" 2] ∧
      (run {} detailedFiles ["tokens", "b"]).map Outcome.events =
        .ok [.runningCommand "tokens", .loadedSource "b" 14,
          .lexicalError "Unterminated string." 2 13 14, .scannedFile "b" 3] := by
  have hcheck : read {} ["-v", "check", "a", "none", "b"] =
      .ok ⟨true, false, none, .check ["a", "none", "b"] none⟩ := by decide +kernel
  have htokens : read {} ["tokens", "b"] = .ok ⟨false, false, none, .tokens ["b"] none false⟩ := by
    decide +kernel
  have hfits : Fits sampleFiles ["a", "none", "b"] := fits_of_all (by decide +kernel)
  have hfits' : Fits detailedFiles ["b"] := fits_of_all (by decide +kernel)
  have hload : loadSettings {} detailedFiles none = .ok { verbose := true } := by
    decide +kernel
  have htrace := @run_events_eq_trace {} sampleFiles _ _ _ hcheck hfits rfl rfl
  have htrace' := @run_events_eq_trace {} detailedFiles _ _ _ htokens hfits' hload rfl
  rw [htrace.1, htrace'.1]
  exact ⟨by decide +kernel, by decide +kernel⟩

end Run

end Lexis

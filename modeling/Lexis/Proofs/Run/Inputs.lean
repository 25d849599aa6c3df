/-
  Lexis.Proofs.Run.Inputs

  What the two commands make of the files they are given, in the order given.

  The first file that cannot be read ends a command, and what is behind it changes nothing: neither
  what the command writes nor how it stops. Of the files before it a command uses nothing but the
  sources that they hold.
-/

import Lexis.Proofs.Run.Dump
import Lexis.Proofs.Run.Log

namespace Lexis

/-! ## The first of several computations to stop -/

/-- Where calls in a row fail, there is a first one that does. -/
theorem exists_of_mapM_eq_error {α β ε : Type} {f : α → Except ε β} {l : List α} {e : ε}
    (h : l.mapM f = .error e) :
    ∃ before a after, l = before ++ a :: after ∧ (∀ b ∈ before, ∃ c, f b = .ok c) ∧
      f a = .error e := by
  -- The first element that fails, with all before it succeeding.
  induction l with
  | nil => cases h
  | cons a l ih =>
    rw [List.mapM_cons] at h
    cases ha : f a with
    | error e' =>
      rw [ha] at h
      cases h
      exact ⟨[], a, l, rfl, List.forall_mem_nil _, ha⟩
    | ok b =>
      cases hl : l.mapM f with
      | ok bs =>
        rw [ha, hl] at h
        cases h
      | error e' =>
        rw [ha, hl] at h
        cases h
        obtain ⟨before, a', after, rfl, hbefore, ha'⟩ := ih hl
        exact ⟨a :: before, a', after, rfl, List.forall_mem_cons.2 ⟨⟨b, ha⟩, hbefore⟩, ha'⟩

/-- If no call fails, all succeed in a row. -/
theorem exists_mapM_eq_ok {α β ε : Type} {f : α → Except ε β} {l : List α}
    (h : ∀ a ∈ l, ∃ b, f a = .ok b) : ∃ r, l.mapM f = .ok r := by
  cases hl : l.mapM f with
  | ok r => exact ⟨r, rfl⟩
  | error e =>
    obtain ⟨before, a, after, rfl, -, ha⟩ := exists_of_mapM_eq_error hl
    obtain ⟨b, hb⟩ := h a (List.mem_append_right before List.mem_cons_self)
    rw [ha] at hb
    cases hb

theorem forall_exists_of_mapM_eq_ok {α β ε : Type} {f : α → Except ε β} {l : List α} {r : List β}
    (h : l.mapM f = .ok r) : ∀ a ∈ l, ∃ b, f a = .ok b := by
  induction Run.mapM_eq_ok_iff.1 h with
  | nil => exact List.forall_mem_nil _
  | cons hhead htail ih =>
    exact List.forall_mem_cons.2 ⟨⟨_, hhead⟩, ih (Run.mapM_eq_ok_iff.2 htail)⟩

/-- The first call that fails decides, whatever calls come after it. -/
theorem mapM_append_eq_error {α β ε : Type} {f : α → Except ε β} {before after : List α} {a : α}
    {e : ε} (hbefore : ∀ b ∈ before, ∃ c, f b = .ok c) (ha : f a = .error e) :
    (before ++ a :: after).mapM f = .error e := by
  induction before with
  | nil =>
    rw [List.nil_append, List.mapM_cons, ha]
    rfl
  | cons b before ih =>
    obtain ⟨⟨c, hb⟩, hrest⟩ := List.forall_mem_cons.1 hbefore
    rw [List.cons_append, List.mapM_cons, hb, ih hrest]
    rfl

namespace Transcript

variable {α β : Type} {before after after' : List α} {a : α} {stop : Stop}

/-- What stands behind a failing element is not reached. -/
theorem mapM_append_of_error {f : α → Transcript β} (h : (f a).result = .error stop) :
    (before ++ a :: after).mapM f = (before ++ [a]).mapM f := by
  rw [List.mapM_append, List.mapM_append, List.mapM_cons, List.mapM_cons, bind_error h,
    bind_error h]

theorem foldlM_append_of_error {f : β → α → Transcript β}
    (h : ∀ b, ∃ stop, (f b a).result = .error stop) (b : β) :
    (before ++ a :: after).foldlM f b = (before ++ [a]).foldlM f b := by
  rw [List.foldlM_append, List.foldlM_append]
  congr 1
  funext b'
  obtain ⟨stop, hstop⟩ := h b'
  rw [List.foldlM_cons, List.foldlM_cons, bind_error hstop, bind_error hstop]

theorem mapM_congr {f g : α → Transcript β} {l : List α} (h : ∀ a ∈ l, f a = g a) :
    l.mapM f = l.mapM g := by
  induction l with
  | nil => rfl
  | cons a l ih =>
    obtain ⟨ha, hl⟩ := List.forall_mem_cons.1 h
    rw [List.mapM_cons, List.mapM_cons, ha, ih hl]

theorem foldlM_congr {f g : β → α → Transcript β} {l : List α} (h : ∀ a ∈ l, ∀ b, f b a = g b a)
    (b : β) : l.foldlM f b = l.foldlM g b := by
  induction l generalizing b with
  | nil => rfl
  | cons a l ih =>
    obtain ⟨ha, hl⟩ := List.forall_mem_cons.1 h
    rw [List.foldlM_cons, List.foldlM_cons, ha]
    congr 1
    exact funext fun b' => ih hl b'

end Transcript

namespace Run

open Text Check

variable {files files' : Files} {path : String} {paths before after : List String}
  {sources : List String} {f : Failure}

/-! ## Commands on some files -/

/-- Reads a source for a dump, which keeps the path with it. -/
def loadNamed (files : Files) (path : String) : Transcript (String × String) := do
  return (path, ← loadSource files path)

/-- A dump loads all its files before it scans the first. -/
theorem dump_eq (files : Files) (format : Format) (spans : Bool) (hne : paths ≠ []) :
    dump files format spans paths = paths.mapM (loadNamed files) >>= render format spans := by
  have hsome : ¬ paths.isEmpty = true := by rwa [List.isEmpty_iff]
  exact if_neg hsome

/-- A check takes up its files one by one. -/
theorem check_eq (files : Files) (maxErrors : Option Nat) (hne : paths ≠ []) :
    check files maxErrors paths =
      paths.foldlM (checkFile files maxErrors) .empty >>= fun tally => pure tally.report := by
  have hsome : ¬ paths.isEmpty = true := by rwa [List.isEmpty_iff]
  exact if_neg hsome

/-! ## Nothing but the sources matters -/

theorem loadSource_congr (h : files'.readSource path = files.readSource path) :
    loadSource files' path = loadSource files path := by
  rw [loadSource, loadSource, h]

/-- A dump depends on its files only through what reading them gives. -/
theorem dump_congr (format : Format) (spans : Bool)
    (h : ∀ path ∈ paths, files'.readSource path = files.readSource path) :
    dump files' format spans paths = dump files format spans paths := by
  have hload : ∀ path ∈ paths, loadNamed files' path = loadNamed files path := by
    intro path hpath
    rw [loadNamed, loadNamed, loadSource_congr (h path hpath)]
  by_cases hne : paths = []
  · rw [hne]
    rfl
  · rw [dump_eq _ _ _ hne, dump_eq _ _ _ hne, Transcript.mapM_congr hload]

theorem check_congr (maxErrors : Option Nat)
    (h : ∀ path ∈ paths, files'.readSource path = files.readSource path) :
    check files' maxErrors paths = check files maxErrors paths := by
  have hfile : ∀ path ∈ paths, ∀ tally,
      checkFile files' maxErrors tally path = checkFile files maxErrors tally path := by
    intro path hpath tally
    rw [checkFile, checkFile, loadSource_congr (h path hpath)]
  by_cases hne : paths = []
  · rw [hne]
    rfl
  · rw [check_eq _ _ hne, check_eq _ _ hne, Transcript.foldlM_congr hfile]

/-! ## What is behind a file that cannot be read -/

theorem result_loadSource_of_error (h : files.readSource path = .error f) :
    (loadSource files path).result = .error (.failure f) := by
  rw [loadSource, h]
  rfl

theorem result_checkFile_of_error (maxErrors : Option Nat) (tally : Tally)
    (h : files.readSource path = .error f) :
    (checkFile files maxErrors tally path).result = .error (.failure f) := by
  rw [checkFile, Transcript.bind_error (result_loadSource_of_error h)]

/-- Behind a file that cannot be read no other is looked at. -/
theorem dump_of_unreadable (format : Format) (spans : Bool)
    (h : files.readSource path = .error f) :
    dump files format spans (before ++ path :: after) =
      dump files format spans (before ++ [path]) := by
  have hload : (loadNamed files path).result = .error (.failure f) := by
    rw [loadNamed, Transcript.bind_error (result_loadSource_of_error h)]
  rw [dump_eq _ _ _ (by simp), dump_eq _ _ _ (by simp), Transcript.mapM_append_of_error hload]

theorem check_of_unreadable (maxErrors : Option Nat) (h : files.readSource path = .error f) :
    check files maxErrors (before ++ path :: after) =
      check files maxErrors (before ++ [path]) := by
  have hfile : ∀ tally, ∃ stop, (checkFile files maxErrors tally path).result = .error stop :=
    fun tally => ⟨_, result_checkFile_of_error maxErrors tally h⟩
  rw [check_eq _ _ (by simp), check_eq _ _ (by simp), Transcript.foldlM_append_of_error hfile]

/-! ## Results -/

/-- Sources that are kept with their paths, read in order. -/
theorem mapM_map_mk (files : Files) (paths : List String) :
    (paths.mapM fun path => (files.readSource path).map (Prod.mk path)) =
      (paths.mapM files.readSource).map paths.zip := by
  induction paths with
  | nil => rfl
  | cons path paths ih =>
    rw [List.mapM_cons, List.mapM_cons, ih]
    cases files.readSource path with
    | error f => rfl
    | ok source => cases paths.mapM files.readSource <;> rfl

/-- A dump fails at the first file that cannot be read, or else it is the rendering of all. -/
theorem result_dump (format : Format) (spans : Bool) (hne : paths ≠ []) :
    (dump files format spans paths).result =
      ((paths.mapM files.readSource).mapError .failure).bind fun sources =>
        (render format spans (paths.zip sources)).result := by
  have hload : (fun path => (loadNamed files path).result) =
      fun path => ((files.readSource path).map (Prod.mk path)).mapError .failure := by
    funext path
    rw [loadNamed, Transcript.result_bind, loadSource]
    cases files.readSource path <;> rfl
  rw [dump_eq _ _ _ hne, Transcript.result_bind, Transcript.result_mapM, hload, mapM_mapError,
    mapM_map_mk]
  cases paths.mapM files.readSource <;> rfl

/-- What can be read of some files fits into memory. -/
def Fits (files : Files) (paths : List String) : Prop :=
  ∀ path ∈ paths, ∀ source, files.readSource path = .ok source → source.utf8ByteSize ≤ maxSize

/-- Whether files fit can be told by reading them. -/
theorem fits_of_all
    (h : ∀ path ∈ paths, (files.readSource path).toOption.all (·.utf8ByteSize ≤ maxSize) = true) :
    Fits files paths := by
  intro path hpath source hread
  have hall := h path hpath
  rw [hread] at hall
  exact of_decide_eq_true hall

/-- Some of the files hold more lines than can be counted. -/
def Overflows (files : Files) (paths : List String) : Prop :=
  ∃ path ∈ paths, ∃ source, files.readSource path = .ok source ∧
    Cursor.maxLine ≤ lineFeeds source.toList

/-- The only fault of a scan is the line counter's overflow. -/
theorem overflow_of_tokenize_eq_error {source : String} {fault : Fault}
    (hsize : source.utf8ByteSize ≤ maxSize) (h : tokenize source = .error fault) :
    fault = .lineOverflow ∧ Cursor.maxLine ≤ lineFeeds source.toList := by
  rw [tokenize_eq (size_le_maxOffset hsize)] at h
  split at h
  next => cases h
  next hlt => exact ⟨(Except.error.inj h).symm, Nat.not_lt.1 hlt⟩

theorem Overflows.mono {more : List String} (h : Overflows files paths)
    (hmore : ∀ path ∈ paths, path ∈ more) : Overflows files more := by
  obtain ⟨path, hpath, hsource⟩ := h
  exact ⟨path, hmore path hpath, hsource⟩

/-- A check that comes to a file that cannot be read fails there, unless it has passed the limit on
    lines before. -/
theorem result_foldlM_checkFile_of_unreadable (maxErrors : Option Nat) (after : List String)
    (hfits : Fits files before)
    (hbefore : ∀ path ∈ before, ∃ source, files.readSource path = .ok source)
    (h : files.readSource path = .error f) (tally : Tally) :
    ((before ++ path :: after).foldlM (checkFile files maxErrors) tally).result =
        .error (.failure f) ∨
      ((before ++ path :: after).foldlM (checkFile files maxErrors) tally).result =
          .error (.fault .lineOverflow) ∧ Overflows files before := by
  -- On the files before, with the tally so far: each is scanned, or passes the limit and ends it.
  induction before generalizing tally with
  | nil =>
    left
    rw [List.nil_append, List.foldlM_cons,
      Transcript.bind_error (result_checkFile_of_error maxErrors tally h)]
  | cons first before ih =>
    obtain ⟨⟨source, hread⟩, hrest⟩ := List.forall_mem_cons.1 hbefore
    obtain ⟨hfirst, hfits⟩ := List.forall_mem_cons.1 hfits
    have hfile := result_checkFile maxErrors hread (hfirst source hread) tally
    rw [List.cons_append, List.foldlM_cons]
    cases htokens : tokenize source with
    | error fault =>
      obtain ⟨rfl, hlines⟩ := overflow_of_tokenize_eq_error (hfirst source hread) htokens
      rw [htokens] at hfile
      rw [Transcript.bind_error hfile]
      exact .inr ⟨rfl, first, List.mem_cons_self, source, hread, hlines⟩
    | ok ts =>
      rw [htokens] at hfile
      rw [Transcript.result_bind_ok hfile]
      rcases ih hfits hrest (tally.addFiles maxErrors [first] [ts]) with hfails | ⟨hfault, hover⟩
      · exact .inl hfails
      · exact .inr ⟨hfault, hover.mono fun _ => List.mem_cons_of_mem first⟩

theorem exists_path_of_mem {source : String} (hread : paths.mapM files.readSource = .ok sources)
    (h : source ∈ sources) : ∃ path ∈ paths, files.readSource path = .ok source := by
  induction mapM_eq_ok_iff.1 hread with
  | nil => cases h
  | cons hhead htail ih =>
    rcases List.mem_cons.1 h with rfl | h
    · exact ⟨_, List.mem_cons_self, hhead⟩
    · obtain ⟨path, hpath, hsource⟩ := ih (mapM_eq_ok_iff.2 htail) h
      exact ⟨path, List.mem_cons_of_mem _ hpath, hsource⟩

theorem Fits.size_le (hfits : Fits files paths)
    (hread : paths.mapM files.readSource = .ok sources) :
    ∀ source ∈ sources, source.utf8ByteSize ≤ maxSize := by
  intro source hsource
  obtain ⟨path, hpath, hpathRead⟩ := exists_path_of_mem hread hsource
  exact hfits path hpath source hpathRead

/-- Where one of the sources passes a limit, some file holds too many lines. -/
theorem overflows_of_tokenize {source : String} {fault : Fault} (hfits : Fits files paths)
    (hread : paths.mapM files.readSource = .ok sources) (hsource : source ∈ sources)
    (h : tokenize source = .error fault) : fault = .lineOverflow ∧ Overflows files paths := by
  obtain ⟨path, hpath, hpathRead⟩ := exists_path_of_mem hread hsource
  obtain ⟨hfault, hlines⟩ :=
    overflow_of_tokenize_eq_error (hfits path hpath source hpathRead) h
  exact ⟨hfault, path, hpath, source, hpathRead, hlines⟩

/-- Sources that cannot all be scanned have one with too many lines among them. -/
theorem overflow_of_scanned_eq_error {named : List (String × String)} {fault : Fault}
    (hsize : ∀ s ∈ named, s.2.utf8ByteSize ≤ maxSize) (h : scanned named = .error fault) :
    fault = .lineOverflow ∧ ∃ s ∈ named, Cursor.maxLine ≤ lineFeeds s.2.toList := by
  obtain ⟨before, s, after, hnamed, -, hfile⟩ := exists_of_mapM_eq_error h
  have hmem : s ∈ named := by
    rw [hnamed]
    exact List.mem_append_right before List.mem_cons_self
  -- The file that stops the scan has too many lines.
  cases htokens : tokenize s.2 with
  | ok ts =>
    rw [htokens] at hfile
    cases hfile
  | error fault' =>
    rw [htokens] at hfile
    cases hfile
    obtain ⟨hfault, hlines⟩ := overflow_of_tokenize_eq_error (hsize s hmem) htokens
    exact ⟨hfault, s, hmem, hlines⟩

/-- A dump that faults has a file with too many lines. -/
theorem overflows_of_scanned {fault : Fault} (hfits : Fits files paths)
    (hread : paths.mapM files.readSource = .ok sources)
    (h : scanned (paths.zip sources) = .error fault) :
    fault = .lineOverflow ∧ Overflows files paths := by
  have hsize : ∀ s ∈ paths.zip sources, s.2.utf8ByteSize ≤ maxSize := fun s hs =>
    hfits.size_le hread s.2 (List.of_mem_zip hs).2
  obtain ⟨hfault, s, hs, hlines⟩ := overflow_of_scanned_eq_error hsize h
  obtain ⟨path, hpath, hpathRead⟩ := exists_path_of_mem hread (List.of_mem_zip hs).2
  exact ⟨hfault, path, hpath, s.2, hpathRead, hlines⟩

end Run

/-! ## Finished checks -/

namespace Check.Report

/-- What a check reports of files, given all tokens of each with the end token. -/
def ofTokens (maxErrors : Option Nat) (paths : List String) (tss : List (List Token)) : Report where
  files := paths.length
  tokens := (tss.map (·.length - 1)).sum
  errors := (tss.map (·.countP (·.kind = .error))).sum
  findings := (List.zipWith (listed maxErrors) paths tss).flatten

/-- What a check that is finished writes beside details: its findings and a summary. -/
def written (report : Report) : List Line :=
  report.findings.map (.plain ·.text) ++
    [.event (.checkFinished report.files report.tokens report.errors)]

/-- What a run of the check leaves in all: at the end its failure, if there is any error. -/
def lines (report : Report) : List Line :=
  report.written ++
    if report.errors = 0 then [] else [.plain (Failure.lexicalErrors report.errors).report]

/-- No line of a report is a detail, so all are shown. -/
theorem isDetail_of_mem_written {report : Report} : ∀ l ∈ report.written, l.isDetail = false := by
  intro l hl
  rcases List.mem_append.1 hl with hl | hl
  · obtain ⟨finding, -, rfl⟩ := List.mem_map.1 hl
    rfl
  · obtain rfl := List.mem_singleton.1 hl
    rfl

/-- Nothing is listed where nothing is counted. -/
theorem findings_ofTokens {maxErrors : Option Nat} {paths : List String} {tss : List (List Token)}
    (h : (ofTokens maxErrors paths tss).errors = 0) :
    (ofTokens maxErrors paths tss).findings = [] := by
  -- The sum counts every file, so no file holds an error token.
  have hnone : ∀ ts ∈ tss, ∀ path, listed maxErrors path ts = [] := by
    intro ts hts path
    have hcount : ts.countP (·.kind = .error) = 0 :=
      List.sum_eq_zero_iff_forall_eq_nat.1 h _ (List.mem_map_of_mem hts)
    have hfilter : ts.filter (·.kind = .error) = [] :=
      List.filter_eq_nil_iff.2 (List.countP_eq_zero.1 hcount)
    rw [listed, hfilter]
    cases maxErrors <;> simp [firstOf]
  refine List.flatten_eq_nil_iff.2 fun l hl => ?_
  obtain ⟨i, hi, rfl⟩ := List.getElem_of_mem hl
  rw [List.getElem_zipWith]
  exact hnone _ (List.getElem_mem _) _

end Check.Report

namespace Run

open Check

variable {files : Files} {maxErrors : Option Nat} {paths sources : List String} {stop : Stop}
  {report : Report}

/-- A check of readable files comes to the report on their tokens, if they can be had. -/
theorem result_check_eq (maxErrors : Option Nat) (hne : paths ≠ []) (hfits : Fits files paths)
    (hread : paths.mapM files.readSource = .ok sources) :
    (check files maxErrors paths).result =
      ((sources.mapM tokenize).map (Report.ofTokens maxErrors paths)).mapError .fault := by
  have hmap : paths.map files.readSource = sources.map .ok := by
    rw [← List.forall₂_eq_eq_eq, List.forall₂_map_left_iff, List.forall₂_map_right_iff]
    exact mapM_eq_ok_iff.1 hread
  rw [check_eq _ _ hne, Transcript.result_bind,
    result_foldlM_checkFile maxErrors hmap (hfits.size_le hread)]
  cases sources.mapM tokenize with
  | error fault => rfl
  | ok tss => exact congrArg Except.ok (Tally.report_addFiles_empty maxErrors paths tss)

/-- A check fails at the first file that cannot be read, unless it has passed the limit on lines
    before. -/
theorem result_check_of_unreadable {before : List String} {path : String} {f : Failure}
    (maxErrors : Option Nat) (after : List String) (hfits : Fits files before)
    (hbefore : ∀ path ∈ before, ∃ source, files.readSource path = .ok source)
    (h : files.readSource path = .error f) :
    (check files maxErrors (before ++ path :: after)).result = .error (.failure f) ∨
      ((check files maxErrors (before ++ path :: after)).result = .error (.fault .lineOverflow) ∧
        Overflows files before) := by
  rw [check_eq _ _ (by simp), Transcript.result_bind]
  rcases result_foldlM_checkFile_of_unreadable maxErrors after hfits hbefore h .empty with
    hfails | ⟨hfault, hover⟩
  · left
    rw [hfails]
    rfl
  · right
    rw [hfault]
    exact ⟨rfl, hover⟩

/-- Where the check of the files stops, the command has written details only. -/
theorem checkCommand_of_error (h : (check files maxErrors paths).result = .error stop) :
    (checkCommand files maxErrors paths).Quiet ∧
      (checkCommand files maxErrors paths).result = .error stop := by
  unfold checkCommand
  rw [Transcript.bind_error h]
  refine ⟨?_, rfl⟩
  exact (Transcript.quiet_record rfl).bind fun _ => quiet_check files maxErrors paths

/-- Where the check of the files comes to a report, the command goes on to write it, and fails if
    there is any error. -/
theorem lines_checkCommand_of_ok (h : (check files maxErrors paths).result = .ok report) :
    (checkCommand files maxErrors paths).lines =
        (.event (.runningCommand "check") :: (check files maxErrors paths).lines) ++
          report.written ∧
      (checkCommand files maxErrors paths).result =
        if report.errors = 0 then .ok () else .error (.failure (.lexicalErrors report.errors)) := by
  unfold checkCommand
  rw [Transcript.lines_bind_ok rfl, Transcript.lines_bind_ok h, Transcript.lines_bind_ok rfl,
    Transcript.lines_bind_ok rfl, Transcript.result_bind_ok rfl, Transcript.result_bind_ok h,
    Transcript.result_bind_ok rfl, Transcript.result_bind_ok rfl]
  -- The failure at the end writes nothing itself.
  by_cases hzero : report.errors = 0
  · rw [if_neg (not_not.2 hzero), if_pos hzero]
    exact ⟨rfl, rfl⟩
  · rw [if_pos hzero, if_neg hzero]
    exact ⟨rfl, rfl⟩

theorem checkCommand_of_ok (h : (check files maxErrors paths).result = .ok report) :
    DetailsThen (checkCommand files maxErrors paths).lines report.written ∧
      (checkCommand files maxErrors paths).result =
        if report.errors = 0 then .ok () else .error (.failure (.lexicalErrors report.errors)) := by
  have hdetails : ∀ l ∈ .event (.runningCommand "check") :: (check files maxErrors paths).lines,
      l.isDetail = true :=
    List.forall_mem_cons.2 ⟨rfl, quiet_check files maxErrors paths⟩
  exact ⟨⟨_, hdetails, (lines_checkCommand_of_ok h).1⟩, (lines_checkCommand_of_ok h).2⟩

end Run

end Lexis

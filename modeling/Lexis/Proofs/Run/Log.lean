/-
  Lexis.Proofs.Run.Log

  What a run writes beside its log.

  The steps of a command record details of the log and nothing else, whether they succeed or stop.
  A failure is reported on a line of its own, for which nothing in the log can be taken: an event
  ends with a number or a quoted name, even where a line feed in a path cuts it in two.
-/

import Lexis.Proofs.Text.Digits
import Lexis.Proofs.Text.Escaped
import Lexis.Run.Program

namespace Lexis

/-- Whether a line is a detail of the log. -/
def Line.isDetail : Line → Bool
  | .event e => e.isDetail
  | .plain _ => false

theorem Line.exists_event_of_isDetail {l : Line} (h : l.isDetail = true) : ∃ e, l = .event e := by
  cases l with
  | event e => exact ⟨e, rfl⟩
  | plain s => cases h

/-- What a line says that is not of the log. -/
def Line.message? : Line → Option String
  | .event _ => none
  | .plain s => some s

/-- Details hold no message. -/
theorem Line.filterMap_message?_details {details : List Line}
    (h : ∀ l ∈ details, l.isDetail = true) : details.filterMap Line.message? = [] := by
  rw [List.filterMap_eq_nil_iff]
  intro l hl
  obtain ⟨e, rfl⟩ := Line.exists_event_of_isDetail (h l hl)
  rfl

/-! ## Computations that record details -/

namespace Transcript

variable {α β : Type}

/-- All that is written are details of the log. -/
def Quiet (x : Transcript α) : Prop :=
  ∀ l ∈ x.lines, l.isDetail = true

theorem quiet_pure (a : α) : (pure a : Transcript α).Quiet :=
  List.forall_mem_nil _

theorem quiet_ofFailing (x : Except Failure α) : (ofFailing x).Quiet :=
  List.forall_mem_nil _

theorem quiet_ofScan (x : Except Fault α) : (ofScan x).Quiet :=
  List.forall_mem_nil _

theorem quiet_fail (f : Failure) : (fail f : Transcript α).Quiet :=
  List.forall_mem_nil _

theorem quiet_record {e : Event} (h : e.isDetail = true) : (record e).Quiet :=
  List.forall_mem_singleton.2 h

theorem Quiet.bind {x : Transcript α} {f : α → Transcript β} (hx : x.Quiet)
    (hf : ∀ a, (f a).Quiet) : (x >>= f).Quiet := by
  intro l hl
  cases hresult : x.result with
  | error stop =>
    rw [bind_error hresult] at hl
    exact hx l hl
  | ok a =>
    rw [lines_bind_ok hresult] at hl
    rcases List.mem_append.1 hl with hl | hl
    · exact hx l hl
    · exact hf a l hl

theorem Quiet.mapM {f : α → Transcript β} (h : ∀ a, (f a).Quiet) (l : List α) :
    (l.mapM f).Quiet := by
  induction l with
  | nil => exact quiet_pure []
  | cons a l ih =>
    rw [List.mapM_cons]
    exact (h a).bind fun b => ih.bind fun bs => quiet_pure (b :: bs)

theorem Quiet.foldlM {f : β → α → Transcript β} (h : ∀ b a, (f b a).Quiet) (l : List α) (b : β) :
    (l.foldlM f b).Quiet := by
  induction l generalizing b with
  | nil => exact quiet_pure b
  | cons a l ih =>
    rw [List.foldlM_cons]
    exact (h b a).bind ih

end Transcript

namespace Run

open Transcript

theorem quiet_loadSource (files : Files) (path : String) : (loadSource files path).Quiet :=
  (quiet_ofFailing _).bind fun _ => (quiet_record rfl).bind fun _ => quiet_pure _

theorem quiet_recordScan (scan : Except Fault (List Token)) : (recordScan scan).Quiet := by
  refine (quiet_ofScan scan).bind fun tokens => ?_
  have hwrite : (write ((tokens.filterMap errorEvent?).map .event)).Quiet := by
    intro l hl
    obtain ⟨e, he, rfl⟩ := List.mem_map.1 hl
    obtain ⟨t, -, ht⟩ := List.mem_filterMap.1 he
    obtain ⟨error, -, rfl⟩ := Option.map_eq_some_iff.1 ht
    rfl
  exact hwrite.bind fun _ => quiet_pure tokens

theorem quiet_scanFile (format : Format) (path source : String) :
    (scanFile format path source).Quiet := by
  refine (quiet_recordScan _).bind fun tokens => ?_
  cases format with
  | text => exact (quiet_record rfl).bind fun _ => quiet_pure _
  | json => exact (quiet_pure ()).bind fun _ => quiet_pure _

theorem quiet_render (format : Format) (spans : Bool) (sources : List (String × String)) :
    (render format spans sources).Quiet := by
  have hscan : (sources.mapM fun s => scanFile format s.1 s.2).Quiet :=
    Quiet.mapM (fun s => quiet_scanFile format s.1 s.2) sources
  unfold render
  refine hscan.bind fun scanned => ?_
  cases format <;> exact quiet_pure _

theorem quiet_tokensCommand (files : Files) (format : Format) (spans : Bool)
    (paths : List String) : (tokensCommand files format spans paths).Quiet := by
  have hload : ∀ path, (do return (path, ← loadSource files path)).Quiet := fun path =>
    (quiet_loadSource files path).bind fun source => quiet_pure (path, source)
  unfold tokensCommand dump
  refine (quiet_record rfl).bind fun _ => ?_
  split
  · exact quiet_fail _
  · exact (Quiet.mapM hload paths).bind (quiet_render format spans)

theorem quiet_checkFile (files : Files) (maxErrors : Option Nat) (tally : Check.Tally)
    (path : String) : (checkFile files maxErrors tally path).Quiet :=
  (quiet_loadSource files path).bind fun _ =>
    (quiet_recordScan _).bind fun _ => (quiet_record rfl).bind fun _ => quiet_pure _

/-- Only when all files are checked are the findings written. -/
theorem quiet_check (files : Files) (maxErrors : Option Nat) (paths : List String) :
    (check files maxErrors paths).Quiet := by
  unfold check
  split
  · exact quiet_fail _
  · exact (Quiet.foldlM (quiet_checkFile files maxErrors) paths _).bind fun _ => quiet_pure _

end Run

/-! ## Where a text ends -/

/-- Behind the last line feed of a text stands its last character, unless that is the line feed. -/
theorem getLast?_of_getLast?_splitOn {a c : Char} {cs s : List Char} (hc : c ≠ a)
    (hlast : cs.getLast? = some c) (hs : (cs.splitOn a).getLast? = some s) :
    s.getLast? = some c := by
  -- On the length of the text; what stands behind its first line feed is shorter.
  induction hn : cs.length using Nat.strongRecOn generalizing cs with
  | ind n ih =>
    by_cases ha : a ∈ cs
    · obtain ⟨xs, ys, rfl, hxs⟩ := List.eq_append_cons_of_mem ha
      rw [List.splitOn_append_cons_self_of_not_mem hxs] at hs
      cases ys with
      | nil => exact absurd (Option.some.inj (List.getLast?_concat ▸ hlast)).symm hc
      | cons y ys =>
        have hrest : (y :: ys).getLast? = some c := by
          rwa [List.getLast?_append, List.getLast?_cons_cons, List.getLast?_cons, Option.some_or,
            ← List.getLast?_cons] at hlast
        have hsplit : ((y :: ys).splitOn a).getLast? = some s := by
          rwa [List.getLast?_cons_of_ne_nil (List.splitOn_ne_nil a _)] at hs
        refine ih (y :: ys).length ?_ hrest hsplit rfl
        simp only [← hn, List.length_append, List.length_cons]
        omega
    · rw [List.splitOn_eq_singleton ha] at hs
      obtain rfl := Option.some.inj hs
      exact hlast

theorem getLast?_toList_append (s : String) {t : String} {c : Char}
    (h : t.toList.getLast? = some c) : (s ++ t).toList.getLast? = some c := by
  rw [String.toList_append, List.getLast?_append, h]
  rfl

/-- An event ends with a number or with a quoted name. -/
theorem Event.getLast?_text (e : Event) :
    ∃ c, e.text.toList.getLast? = some c ∧ (Text.isDigit c = true ∨ c = '"') := by
  -- Every event but one ends in a number.
  have hnumber : ∀ (s : String) (n : Nat), e.message = s ++ toString n →
      ∃ c, e.text.toList.getLast? = some c ∧ (Text.isDigit c = true ∨ c = '"') := by
    intro s n hmessage
    have hne : Nat.toDigits 10 n ≠ [] := Nat.toDigits_ne_nil
    have hlast : (toString n).toList.getLast? = some ((Nat.toDigits 10 n).getLast hne) := by
      rw [← List.getLast?_eq_some_getLast hne]
      exact congrArg List.getLast? String.toList_ofList
    refine ⟨_, ?_, .inl (Text.isDigit_of_mem_toDigits (List.getLast_mem hne))⟩
    rw [text, hmessage]
    exact getLast?_toList_append _ (getLast?_toList_append s hlast)
  cases e with
  | runningCommand name =>
    have hquote : ("\"" : String).toList.getLast? = some '"' := by decide +kernel
    exact ⟨'"', getLast?_toList_append _ (getLast?_toList_append _ hquote), .inr rfl⟩
  | loadedSource path bytes => exact hnumber _ bytes rfl
  | lexicalError message line start stop => exact hnumber _ stop rfl
  | scannedFile path tokens => exact hnumber _ tokens rfl
  | checkedFile path errors => exact hnumber _ errors rfl
  | checkFinished files tokens errors => exact hnumber _ errors rfl

/-- The event that a check is finished, in the words of the log. -/
theorem Event.text_checkFinished (files tokens errors : Nat) :
    (Event.checkFinished files tokens errors).text =
      "INFO check finished files=" ++ toString files ++ " tokens=" ++ toString tokens ++
        " errors=" ++ toString errors := by
  have hlevel : "INFO" ++ " " ++ "check finished files=" = "INFO check finished files=" := by
    decide +kernel
  have htext : (Event.checkFinished files tokens errors).text = "INFO" ++ " " ++
      ("check finished files=" ++ toString files ++ " tokens=" ++ toString tokens ++ " errors=" ++
        toString errors) := rfl
  rw [htext, ← hlevel]
  repeat rw [String.append_assoc]

/-! ## Reports of failures -/

theorem lineFeed_not_mem_toString (n : Nat) : '\n' ∉ (toString n).toList := by
  have hdigits : (toString n).toList = Nat.toDigits 10 n := String.toList_ofList
  rw [hdigits]
  exact fun h => absurd (Text.isDigit_of_mem_toDigits h) (by decide)

/-- The names of kinds are words. -/
theorem SystemError.lineFeed_not_mem_kind (e : SystemError) : '\n' ∉ e.kind.toList := by
  unfold kind
  split <;> decide +kernel

namespace Failure

/-- A report is one line that ends with a parenthesis, or breaks off after a colon. -/
theorem exists_report_eq (f : Failure) :
    ∃ s c, f.report = "Error: " ++ f.category.name ++ "(" ++ s ∧ '\n' ∉ s.toList ∧
      s.toList.getLast? = some c ∧ (c = ')' ∨ c = ':') := by
  have hquote : ∀ detail : String,
      '\n' ∉ (String.ofList (Text.quote detail.toList) ++ ")").toList ∧
        (String.ofList (Text.quote detail.toList) ++ ")").toList.getLast? = some ')' := by
    intro detail
    have hlast : (")" : String).toList.getLast? = some ')' := by decide +kernel
    refine ⟨?_, getLast?_toList_append _ hlast⟩
    rw [String.toList_append, String.toList_ofList]
    intro h
    rcases List.mem_append.1 h with h | h
    · exact Text.lineFeed_not_mem_quote _ h
    · exact absurd h (by decide)
  -- Two reports are fixed texts, one holds a quoted message; any other ends with its detail in
  -- quotes.
  cases f with
  | system e =>
    have hbrace : (" \x7d)" : String).toList.getLast? = some ')' := by decide +kernel
    refine ⟨_, ')', rfl, ?_, getLast?_toList_append _ hbrace, .inl rfl⟩
    simp only [String.toList_append, List.mem_append, not_or]
    exact ⟨⟨⟨⟨⟨⟨by decide, lineFeed_not_mem_toString e.code⟩, by decide⟩,
      e.lineFeed_not_mem_kind⟩, by decide⟩,
      by simpa using Text.lineFeed_not_mem_quote e.message.toList⟩, by decide⟩
  | configurationNotUtf8 => exact ⟨_, ')', rfl, by decide +kernel, by decide +kernel, .inl rfl⟩
  | malformedConfiguration => exact ⟨_, ':', rfl, by decide +kernel, by decide +kernel, .inr rfl⟩
  | noInput | notAFile path | notUtf8 path defect | unknownFormat name | configuredFormat name
  | missingConfiguration path | lexicalErrors count =>
    exact ⟨_, ')', rfl, (hquote _).1, (hquote _).2, .inl rfl⟩

theorem lineFeed_not_mem_report (f : Failure) : '\n' ∉ f.report.toList := by
  obtain ⟨s, c, hreport, hs, -⟩ := f.exists_report_eq
  have hhead : '\n' ∉ ("Error: " ++ f.category.name ++ "(").toList := by
    cases f.category <;> decide +kernel
  rw [hreport, String.toList_append]
  intro h
  exact (List.mem_append.1 h).elim hhead hs

/-- Every report begins with the word that tells errors from all other lines. -/
theorem error_prefix_report (f : Failure) : "Error:".toList <+: f.report.toList := by
  obtain ⟨s, c, hreport, -⟩ := f.exists_report_eq
  have hhead : "Error:".toList <+: "Error: ".toList := by decide +kernel
  rw [hreport, String.toList_append, String.toList_append, String.toList_append, List.append_assoc,
    List.append_assoc]
  exact hhead.trans (List.prefix_append _ _)

end Failure

namespace Run

/-- A line that reports an error starts with that word. It ends with a parenthesis, or with a colon
    where it breaks off. -/
def IsErrorLine (line : String) : Prop :=
  "Error:".toList <+: line.toList ∧
    ∃ c, line.toList.getLast? = some c ∧ (c = ')' ∨ c = ':')

/-- So a report is always told as one. -/
theorem isErrorLine_report (f : Failure) : IsErrorLine f.report := by
  obtain ⟨s, c, hreport, -, hs, hc⟩ := f.exists_report_eq
  refine ⟨f.error_prefix_report, c, ?_, hc⟩
  rw [hreport]
  exact getLast?_toList_append _ hs

/-- No event, nor what a line feed cuts off from one, is taken for a line that reports an error. -/
theorem not_isErrorLine_of_getLast?_brokenLines {e : Event} {line : String}
    (h : (brokenLines e.text).getLast? = some line) : ¬ IsErrorLine line := by
  rintro ⟨-, d, hend, hd⟩
  -- The two ends differ: a digit or a quote there, a parenthesis or a colon here.
  obtain ⟨c, htext, hc⟩ := e.getLast?_text
  have hne : c ≠ '\n' := by
    rintro rfl
    exact hc.elim (by decide) (by decide)
  rw [brokenLines, List.getLast?_map] at h
  obtain ⟨cs, hcs, rfl⟩ := Option.map_eq_some_iff.1 h
  rw [String.toList_ofList, getLast?_of_getLast?_splitOn hne htext hcs] at hend
  obtain rfl := Option.some.inj hend
  rcases hd with rfl | rfl <;> exact hc.elim (by decide) (by decide)

/-! ## What is written beside the log -/

/-- Lines that are details of the log and then some others. -/
def DetailsThen (lines others : List Line) : Prop :=
  ∃ details : List Line, (∀ l ∈ details, l.isDetail = true) ∧ lines = details ++ others

theorem detailsThen_of_quiet {α : Type} {x : Transcript α} (h : x.Quiet) :
    DetailsThen x.lines [] :=
  ⟨x.lines, h, (List.append_nil _).symm⟩

theorem DetailsThen.append {lines others : List Line} (h : DetailsThen lines others)
    (more : List Line) : DetailsThen (lines ++ more) (others ++ more) := by
  obtain ⟨details, hdetails, rfl⟩ := h
  exact ⟨details, hdetails, List.append_assoc details others more⟩

/-- Details may be left out of what is shown, and nothing else. -/
theorem DetailsThen.shown {lines others : List Line} (h : DetailsThen lines others)
    (hothers : ∀ l ∈ others, l.isDetail = false) (verbose : Bool) :
    DetailsThen (lines.filter (isShown verbose)) others := by
  obtain ⟨details, hdetails, rfl⟩ := h
  -- What is no detail is shown whether the run is verbose or not.
  have hshown : ∀ l ∈ others, isShown verbose l = true := by
    intro l hl
    have hdetail := hothers l hl
    cases l with
    | plain s => rfl
    | event e =>
      rw [Line.isDetail] at hdetail
      rw [isShown, hdetail, Bool.not_false, Bool.or_true]
  refine ⟨details.filter (isShown verbose), fun l hl => hdetails l (List.mem_filter.1 hl).1, ?_⟩
  rw [List.filter_append, List.filter_eq_self.2 hshown]

namespace Outcome

variable {o : Outcome}

/-- What is written beside the log, one text for each time that something is. -/
def messages (o : Outcome) : List String :=
  o.lines.filterMap Line.message?

theorem messages_eq {others : List Line} (h : DetailsThen o.lines others) :
    o.messages = others.filterMap Line.message? := by
  obtain ⟨details, hdetails, hlines⟩ := h
  rw [messages, hlines, List.filterMap_append, Line.filterMap_message?_details hdetails,
    List.nil_append]

/-- A report that is written last is the last line beside the log. -/
theorem getLast?_messageLines {lines : List Line} {f : Failure}
    (h : o.lines = lines ++ [.plain f.report]) : o.messageLines.getLast? = some f.report := by
  have hone : brokenLines f.report = [f.report] := by
    rw [brokenLines, List.splitOn_eq_singleton f.lineFeed_not_mem_report, List.map_singleton,
      String.ofList_toList]
  rw [messageLines, h, List.flatMap_append, List.flatMap_singleton]
  show (_ ++ brokenLines f.report).getLast? = some f.report
  rw [hone, List.getLast?_concat]

/-- A run that writes its log only leaves no line that reports an error. -/
theorem not_isErrorLine_of_getLast?_messageLines {line : String}
    (h : ∀ l ∈ o.lines, ∃ e, l = .event e) (hlast : o.messageLines.getLast? = some line) :
    ¬ IsErrorLine line := by
  rw [messageLines, List.getLast?_flatMap] at hlast
  obtain ⟨l, hl, htail⟩ := List.exists_of_findSome?_eq_some hlast
  obtain ⟨e, rfl⟩ := h l (List.mem_reverse.1 hl)
  refine not_isErrorLine_of_getLast?_brokenLines (e := e) ?_
  rw [List.getLast?_tail] at htail
  split at htail
  · cases htail
  · exact htail

end Outcome

end Run

end Lexis

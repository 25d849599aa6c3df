/-
  Lexis.Proofs.Run.Check

  A check reports what the lists of all tokens of its files hold.

  The check draws tokens one by one, reads each error back from its message, and keeps a limit that
  starts anew with every file. `Counted` says what it has made of the tokens of a file so far, and
  one token keeps it. A whole file then adds its totals to the tally, and so do all files in turn.
-/

import Lexis.Proofs.Scan.Replay
import Lexis.Proofs.Scan.Tiling
import Lexis.Run.Command
import Mathlib.Algebra.BigOperators.Group.List.Basic
import Mathlib.Algebra.GroupWithZero.Nat

namespace Lexis

namespace Check

variable {α : Type} {path : String} {maxErrors : Option Nat} {tally : Tally} {ts : List Token}

/-! ## What is listed -/

/-- The first elements of a list, as many as a limit allows and all without a limit. -/
def firstOf (maxErrors : Option Nat) (l : List α) : List α :=
  maxErrors.elim l l.take

/-- What is listed of a file: its first error tokens, each with its line and its lexeme. -/
def listed (maxErrors : Option Nat) (path : String) (ts : List Token) : List Finding :=
  (firstOf maxErrors (ts.filter (·.kind = .error))).map fun t => ⟨path, t.line, t.lexeme⟩

/-- One more element is taken just while there is room below the limit. -/
theorem firstOf_concat (maxErrors : Option Nat) (l : List α) (a : α) :
    firstOf maxErrors (l ++ [a]) =
      if maxErrors.all ((firstOf maxErrors l).length < ·) then firstOf maxErrors l ++ [a]
      else firstOf maxErrors l := by
  cases maxErrors with
  | none => rfl
  | some n =>
    simp only [firstOf, Option.elim_some, Option.all_some, List.length_take, decide_eq_true_eq]
    -- With fewer than `n` elements nothing is cut off yet, with `n` or more the new one is.
    by_cases hlt : l.length < n
    · have hroom : (l ++ [a]).length ≤ n := by
        rw [List.length_append, List.length_singleton]
        exact hlt
      rw [if_pos (by omega), List.take_of_length_le (Nat.le_of_lt hlt),
        List.take_of_length_le hroom]
    · rw [if_neg (by omega), List.take_append_of_le_length (Nat.not_lt.1 hlt)]

/-- Cutting off a list and mapping it may change places. -/
theorem firstOf_map {β : Type} (maxErrors : Option Nat) (f : α → β) (l : List α) :
    firstOf maxErrors (l.map f) = (firstOf maxErrors l).map f := by
  cases maxErrors with
  | none => rfl
  | some n => exact (List.map_take).symm

/-! ## The tokens of one file -/

/-- The errors that tokens report, in words. -/
def reported (path : String) (ts : List Token) : List Finding :=
  ts.filterMap fun t => t.error?.map fun e => ⟨path, t.line, e.message⟩

/-- What the check of a file has made of `n` tokens that report `findings`, having found `tally`
    at its start. -/
structure Counted (maxErrors : Option Nat) (tally : Tally) (n : Nat) (findings : List Finding)
    (p : Progress) : Prop where
  files_eq : p.tally.files = tally.files
  tokens_eq : p.tally.tokens = tally.tokens + n
  /-- Errors reach the tally at the end of the file only. -/
  tally_errors_eq : p.tally.errors = tally.errors
  findings_eq : p.tally.findings.toList = tally.findings.toList ++ firstOf maxErrors findings
  listed_eq : p.listed = (firstOf maxErrors findings).length
  errors_eq : p.errors = findings.length

namespace Counted

variable {n : Nat} {findings : List Finding} {p : Progress}

theorem start (maxErrors : Option Nat) (tally : Tally) :
    Counted maxErrors tally 0 [] (.start tally) := by
  have hnone : firstOf maxErrors ([] : List Finding) = [] := by cases maxErrors <;> simp [firstOf]
  constructor <;> simp [Progress.start, hnone]

theorem countToken (h : Counted maxErrors tally n findings p) :
    Counted maxErrors tally (n + 1) findings p.countToken where
  files_eq := h.files_eq
  tokens_eq := by
    have hn := h.tokens_eq
    show p.tally.tokens + 1 = tally.tokens + (n + 1)
    omega
  tally_errors_eq := h.tally_errors_eq
  findings_eq := h.findings_eq
  listed_eq := h.listed_eq
  errors_eq := h.errors_eq

/-- An error is counted in any case, and listed if there is room for it. -/
theorem countError (h : Counted maxErrors tally n findings p) (f : Finding) :
    Counted maxErrors tally n (findings ++ [f]) (p.countError maxErrors f) := by
  have herrors : p.errors + 1 = (findings ++ [f]).length := by
    rw [h.errors_eq, List.length_append, List.length_singleton]
  -- The limit is compared with what is listed of this file, whatever the tally held before it.
  have hfirst := firstOf_concat maxErrors findings f
  rw [← h.listed_eq] at hfirst
  unfold Progress.countError
  split
  next hroom =>
    rw [if_pos hroom] at hfirst
    exact {
      files_eq := h.files_eq
      tokens_eq := h.tokens_eq
      tally_errors_eq := h.tally_errors_eq
      findings_eq := by
        rw [hfirst, ← List.append_assoc, ← h.findings_eq]
        exact Array.toList_push
      listed_eq := by
        rw [hfirst, List.length_append, ← h.listed_eq]
        rfl
      errors_eq := herrors }
  next hfull =>
    rw [if_neg hfull] at hfirst
    exact {
      files_eq := h.files_eq
      tokens_eq := h.tokens_eq
      tally_errors_eq := h.tally_errors_eq
      findings_eq := by rw [hfirst]; exact h.findings_eq
      listed_eq := by rw [hfirst]; exact h.listed_eq
      errors_eq := herrors }

theorem count (h : Counted maxErrors tally n (reported path ts) p) (t : Token) :
    Counted maxErrors tally (n + 1) (reported path (ts ++ [t])) (p.count maxErrors path t) := by
  unfold Progress.count
  -- A token without an error is counted; one with an error is listed, too.
  cases herror : t.error? with
  | none =>
    have hsame : reported path (ts ++ [t]) = reported path ts := by simp [reported, herror]
    rw [hsame]
    exact h.countToken
  | some e =>
    have hmore : reported path (ts ++ [t]) =
        reported path ts ++ [⟨path, t.line, e.message⟩] := by
      simp [reported, herror]
    rw [hmore]
    exact h.countToken.countError _

/-- The tokens of a file, counted one after another. -/
theorem foldl (h : Counted maxErrors tally n (reported path ts) p) (us : List Token) :
    Counted maxErrors tally (n + us.length) (reported path (ts ++ us))
      (us.foldl (Progress.count maxErrors path) p) := by
  -- On the tokens to come; a token that has been counted moves to `ts`.
  induction us generalizing n ts p with
  | nil => rwa [List.append_nil]
  | cons t us ih =>
    have hrest := ih (h.count t)
    rwa [List.append_assoc, Nat.add_assoc, Nat.add_comm 1] at hrest

end Counted

/-! ## Error tokens -/

/-- If every error token has an error that can be read back, just the error tokens are reported,
    and in the words of their lexemes. -/
theorem filterMap_error?_eq (g : Token → String → α)
    (h : ∀ t ∈ ts, t.isError = true → t.error?.isSome = true) :
    (ts.filterMap fun t => t.error?.map fun e => g t e.message) =
      (ts.filter (·.kind = .error)).map fun t => g t t.lexeme := by
  induction ts with
  | nil => rfl
  | cons t ts ih =>
    obtain ⟨ht, hts⟩ := List.forall_mem_cons.1 h
    have hrest := ih hts
    -- The message of an error token is its lexeme.
    by_cases herror : t.isError = true
    · obtain ⟨e, he⟩ := Option.isSome_iff_exists.1 (ht herror)
      have hlexeme : t.lexeme = e.message := (Token.error?_eq_some he).2
      have hkind : t.kind = .error := eq_of_beq herror
      simp [he, hkind, hlexeme, hrest]
    · -- A token of another kind reports nothing, even if its lexeme is a message.
      have hkind : t.kind ≠ .error := by
        intro hkind
        exact herror (beq_iff_eq.2 hkind)
      have hnone : t.error? = none := if_neg herror
      simp [hnone, hkind, hrest]

/-- The end token is no error. -/
theorem filter_error_of_filter_not_isEof (ts : List Token) :
    (ts.filter (!·.isEof)).filter (·.kind = .error) = ts.filter (·.kind = .error) := by
  rw [List.filter_filter]
  apply List.filter_congr
  intro t _
  by_cases hkind : t.kind = .error <;> simp [Token.isEof, hkind]

/-- The defects of a scan are its error tokens, in their order. -/
theorem filterMap_error?_tokens (source : String) (g : Token → String → α) :
    ((tokens source).filterMap fun t => t.error?.map fun e => g t e.message) =
      ((tokens source).filter (·.kind = .error)).map fun t => g t t.lexeme :=
  filterMap_error?_eq g (tiled_tokens source).isSome_error?

/-- The tokens that are drawn lack only the end token. -/
theorem filterMap_error?_drawn (source : String) (g : Token → String → α) :
    (((tokens source).filter (!·.isEof)).filterMap fun t => t.error?.map fun e => g t e.message) =
      ((tokens source).filter (·.kind = .error)).map fun t => g t t.lexeme := by
  rw [filterMap_error?_eq, filter_error_of_filter_not_isEof]
  intro t ht
  exact (tiled_tokens source).isSome_error? t (List.mem_filter.1 ht).1

theorem reported_tokens (path source : String) :
    reported path ((tokens source).filter (!·.isEof)) =
      ((tokens source).filter (·.kind = .error)).map fun t => ⟨path, t.line, t.lexeme⟩ :=
  filterMap_error?_drawn source fun t message => Finding.mk path t.line message

/-! ## Whole files -/

/-- A tally after files, given all tokens of each with the end token. -/
def Tally.addFiles (maxErrors : Option Nat) (tally : Tally) (paths : List String)
    (tss : List (List Token)) : Tally where
  files := tally.files + paths.length
  tokens := tally.tokens + (tss.map (·.length - 1)).sum
  errors := tally.errors + (tss.map (·.countP (·.kind = .error))).sum
  findings := tally.findings ++ (List.zipWith (listed maxErrors) paths tss).flatten.toArray

theorem Tally.addFiles_nil (maxErrors : Option Nat) (tally : Tally) :
    tally.addFiles maxErrors [] [] = tally := by
  simp [addFiles]

/-- The files of a run are tallied one behind the other. -/
theorem Tally.addFiles_cons (maxErrors : Option Nat) (tally : Tally) (path : String)
    (ts : List Token) (paths : List String) (tss : List (List Token)) :
    tally.addFiles maxErrors (path :: paths) (ts :: tss) =
      (tally.addFiles maxErrors [path] [ts]).addFiles maxErrors paths tss := by
  simp [addFiles, Nat.add_assoc, Nat.add_comm 1]

/-- What a check of some files comes to. -/
theorem Tally.report_addFiles_empty (maxErrors : Option Nat) (paths : List String)
    (tss : List (List Token)) :
    (Tally.empty.addFiles maxErrors paths tss).report =
      { files := paths.length
        tokens := (tss.map (·.length - 1)).sum
        errors := (tss.map (·.countP (·.kind = .error))).sum
        findings := (List.zipWith (listed maxErrors) paths tss).flatten } := by
  simp [addFiles, report, empty]

/-- The tokens that are drawn from a source, counted one by one, add what all its tokens hold. -/
theorem finish_foldl_tokens (maxErrors : Option Nat) (path source : String) (tally : Tally) :
    (((tokens source).filter (!·.isEof)).foldl (Progress.count maxErrors path)
        (.start tally)).finish =
      tally.addFiles maxErrors [path] [tokens source] := by
  have hstart : Counted maxErrors tally 0 (reported path []) (.start tally) :=
    .start maxErrors tally
  have h := hstart.foldl ((tokens source).filter (!·.isEof))
  -- The end token is the only one that is not drawn.
  have hlength : ((tokens source).filter (!·.isEof)).length = (tokens source).length - 1 := by
    rw [tokens, filter_not_isEof_tokensAfter, List.length_dropLast]
  rw [List.nil_append, reported_tokens, Nat.zero_add, hlength] at h
  have hfindings := h.findings_eq
  have herrors := h.errors_eq
  rw [firstOf_map, ← listed] at hfindings
  rw [List.length_map, ← List.countP_eq_length_filter] at herrors
  simp only [Progress.finish, Tally.addFiles, Tally.mk.injEq]
  refine ⟨?_, ?_, ?_, ?_⟩
  · rw [h.files_eq]
    rfl
  · rw [h.tokens_eq, List.map_singleton, List.sum_singleton]
  · rw [h.tally_errors_eq, herrors, List.map_singleton, List.sum_singleton]
  · apply Array.ext'
    rw [hfindings]
    simp

end Check

namespace Run

open Check Text

variable {files : Files} {path source : String}

theorem result_loadSource (hread : files.readSource path = .ok source) :
    (loadSource files path).result = .ok source := by
  have hresult : (Transcript.ofFailing (files.readSource path)).result = .ok source := by
    rw [hread]
    rfl
  unfold loadSource
  rw [Transcript.result_bind_ok hresult]
  rfl

/-- Recording errors stops nothing. -/
theorem result_recordScan (scan : Except Fault (List Token)) :
    (recordScan scan).result = scan.mapError .fault := by
  cases scan <;> rfl

/-- A file adds to the tally what all its tokens hold, if they can be had. -/
theorem result_checkFile (maxErrors : Option Nat) (hread : files.readSource path = .ok source)
    (hsize : source.utf8ByteSize ≤ maxSize) (tally : Tally) :
    (checkFile files maxErrors tally path).result =
      ((tokenize source).map fun ts => tally.addFiles maxErrors [path] [ts]).mapError .fault := by
  have hoffset := size_le_maxOffset hsize
  have htokens := tokenize_eq hoffset
  have hscan := result_recordScan ((Scanner.ofSource source).collect.map (·.1))
  rw [Scanner.collect_ofSource hoffset] at hscan
  unfold checkFile
  rw [Transcript.result_bind_ok (result_loadSource hread), Scanner.collect_ofSource hoffset]
  -- The tokens drawn one by one pass the limit on lines just when all tokens do.
  by_cases hlt : lineFeeds source.toList < Cursor.maxLine
  · rw [if_pos hlt] at htokens
    rw [htokens] at hscan ⊢
    rw [Transcript.result_bind_ok hscan]
    exact congrArg Except.ok (finish_foldl_tokens maxErrors path source tally)
  · rw [if_neg hlt] at htokens
    rw [htokens] at hscan ⊢
    rw [Transcript.bind_error hscan]
    rfl

/-- Files in turn add what all their tokens hold; the first that cannot be scanned ends it. -/
theorem result_foldlM_checkFile {paths sources : List String} (maxErrors : Option Nat)
    (hread : paths.map files.readSource = sources.map .ok)
    (hsize : ∀ source ∈ sources, source.utf8ByteSize ≤ maxSize) (tally : Tally) :
    (paths.foldlM (checkFile files maxErrors) tally).result =
      ((sources.mapM tokenize).map (tally.addFiles maxErrors paths)).mapError .fault := by
  -- On the paths, with the tally that the files before have left.
  induction paths generalizing sources tally with
  | nil =>
    obtain rfl : sources = [] := List.map_eq_nil_iff.1 hread.symm
    exact congrArg Except.ok (tally.addFiles_nil maxErrors).symm
  | cons path paths ih =>
    cases sources with
    | nil => cases hread
    | cons source sources =>
      obtain ⟨hpath, hpaths⟩ := List.cons.inj hread
      obtain ⟨hsource, hsources⟩ := List.forall_mem_cons.1 hsize
      have hfile := result_checkFile maxErrors hpath hsource tally
      rw [List.foldlM_cons, List.mapM_cons]
      cases htokens : tokenize source with
      | error fault =>
        rw [htokens] at hfile
        rw [Transcript.bind_error hfile]
        rfl
      | ok ts =>
        rw [htokens] at hfile
        rw [Transcript.result_bind_ok hfile, ih hpaths hsources]
        cases sources.mapM tokenize with
        | error fault => rfl
        | ok tss => exact congrArg Except.ok (tally.addFiles_cons maxErrors path ts paths tss).symm

/-- The tokens of all of some sources can be had if each can be scanned. -/
theorem exists_mapM_tokenize {sources : List String} (h : ∀ source ∈ sources, Scannable source) :
    ∃ tss, sources.mapM tokenize = .ok tss := by
  induction sources with
  | nil => exact ⟨[], rfl⟩
  | cons source sources ih =>
    obtain ⟨hsource, hsources⟩ := List.forall_mem_cons.1 h
    obtain ⟨tss, htss⟩ := ih hsources
    refine ⟨tokens source :: tss, ?_⟩
    rw [List.mapM_cons, tokenize_of_scannable hsource, htss]
    rfl

/-- A check of readable files reports what `tokenize` yields for each of them: the counts whatever
    the limit on errors, the findings up to the limit in each file. -/
theorem result_check {files : Files} {paths sources : List String} (maxErrors : Option Nat)
    (hne : paths ≠ []) (hread : paths.map files.readSource = sources.map .ok)
    (hsize : ∀ source ∈ sources, source.utf8ByteSize ≤ maxSize) :
    (check files maxErrors paths).result =
        ((sources.mapM tokenize).map fun tss =>
          { files := paths.length
            tokens := (tss.map (·.length - 1)).sum
            errors := (tss.map (·.countP (·.kind = .error))).sum
            findings := (List.zipWith (listed maxErrors) paths tss).flatten : Report }).mapError
          .fault ∧
      ((∀ source ∈ sources, Scannable source) → ∃ tss, sources.mapM tokenize = .ok tss) := by
  refine ⟨?_, exists_mapM_tokenize⟩
  have hfold := result_foldlM_checkFile maxErrors hread hsize .empty
  have hsome : ¬ paths.isEmpty = true := by rwa [List.isEmpty_iff]
  unfold check
  rw [if_neg hsome]
  show (paths.foldlM (checkFile files maxErrors) .empty >>= fun tally =>
    pure tally.report).result = _
  -- The fold has taken the same way, so its report is that of all files together.
  cases htokens : sources.mapM tokenize with
  | error fault =>
    rw [htokens] at hfold
    rw [Transcript.bind_error hfold]
    rfl
  | ok tss =>
    rw [htokens] at hfold
    rw [Transcript.result_bind_ok hfold]
    exact congrArg Except.ok (Tally.report_addFiles_empty maxErrors paths tss)

/-- Two files: one with two errors and a string that reads like a third, one with an open string
    on its second line. -/
def sampleFiles : Files
  | "a" => .file (Utf8.encode "@ \"Unexpected character.\" @".toList)
  | "b" => .file (Utf8.encode "Unterminated\n\"".toList)
  | _ => .missing

/-- The sources of the two files, that of the first once more. -/
def sampleSources : List String :=
  ["@ \"Unexpected character.\" @", "Unterminated\n\"", "@ \"Unexpected character.\" @"]

/-- A file named twice is checked twice, and the limit of one finding holds for each time anew. -/
theorem result_check_twice :
    ["a", "b", "a"] ≠ [] ∧
      ["a", "b", "a"].map sampleFiles.readSource = sampleSources.map .ok ∧
      (∀ source ∈ sampleSources, Scannable source) ∧
      (∃ tss, sampleSources.mapM tokenize = .ok tss) ∧
      (check sampleFiles (some 1) ["a", "b", "a"]).result =
        .ok ⟨3, 8, 5, [⟨"a", 1, "Unexpected character."⟩, ⟨"b", 2, "Unterminated string."⟩,
          ⟨"a", 1, "Unexpected character."⟩]⟩ := by
  have hne : ["a", "b", "a"] ≠ [] := List.cons_ne_nil _ _
  have hread : ["a", "b", "a"].map sampleFiles.readSource = sampleSources.map .ok := by
    decide +kernel
  have hsizes : ∀ source ∈ sampleSources, source.utf8ByteSize ≤ maxSize := by decide +kernel
  have hlines : ∀ source ∈ sampleSources, lineFeeds source.toList < Cursor.maxLine := by
    decide +kernel
  have hscan : ∀ source ∈ sampleSources, Scannable source := fun source h =>
    ⟨hsizes source h, hlines source h⟩
  obtain ⟨hresult, htokens⟩ := result_check (some 1) hne hread hsizes
  refine ⟨hne, hread, hscan, htokens hscan, ?_⟩
  rw [hresult]
  decide +kernel

end Run

end Lexis

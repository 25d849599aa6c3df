/-
  Lexis.Proofs.Run.Limits

  Two checks of the same files under two limits.

  Both read the same sources and draw the same tokens, so they record the same details and stop for
  the same reason. Their counts do not know the limits; only what they list of each file differs,
  and it is a beginning of all the errors of that file in both. `Agree` relates what the two have
  found so far, and one file keeps it.
-/

import Lexis.Proofs.Run.Stages

namespace Lexis

/-! ## Two computations at once -/

namespace Transcript

variable {α β : Type} {p : α → α → Prop} {q : β → β → Prop}

/-- Two computations write the same, and stop for the same reason or yield what `p` relates. -/
structure Twins (p : α → α → Prop) (x y : Transcript α) : Prop where
  lines_eq : y.lines = x.lines
  results : (∃ stop, x.result = .error stop ∧ y.result = .error stop) ∨
    ∃ a b, x.result = .ok a ∧ y.result = .ok b ∧ p a b

theorem Twins.pure {a b : α} (h : p a b) : Twins p (pure a : Transcript α) (pure b) :=
  ⟨rfl, .inr ⟨a, b, rfl, rfl, h⟩⟩

/-- Two runs that go the same way stay together along a bind. -/
theorem Twins.bind {x y : Transcript α} {f g : α → Transcript β} (h : Twins p x y)
    (hf : ∀ a b, p a b → Twins q (f a) (g b)) : Twins q (x >>= f) (y >>= g) := by
  rcases h.results with ⟨stop, hx, hy⟩ | ⟨a, b, hx, hy, hab⟩
  · rw [bind_error hx, bind_error hy]
    exact ⟨h.lines_eq, .inl ⟨stop, rfl, rfl⟩⟩
  · have hrest := hf a b hab
    constructor
    · rw [lines_bind_ok hx, lines_bind_ok hy, h.lines_eq, hrest.lines_eq]
    · rw [result_bind_ok hx, result_bind_ok hy]
      exact hrest.results

/-- What two computations have in common may come first. -/
theorem Twins.bind_same {γ : Type} {x : Transcript γ} {f g : γ → Transcript β}
    (hf : ∀ c, x.result = .ok c → Twins q (f c) (g c)) : Twins q (x >>= f) (x >>= g) := by
  cases hx : x.result with
  | error stop =>
    rw [bind_error hx, bind_error hx]
    exact ⟨rfl, .inl ⟨stop, rfl, rfl⟩⟩
  | ok c =>
    have hrest := hf c hx
    constructor
    · rw [lines_bind_ok hx, lines_bind_ok hx, hrest.lines_eq]
    · rw [result_bind_ok hx, result_bind_ok hx]
      exact hrest.results

end Transcript

namespace Check

/-! ## Limits -/

/-- A limit allows no more than another; no limit allows the most. -/
def AtMost (limit : Option Nat) : Option Nat → Prop
  | none => True
  | some n => ∃ m ≤ n, limit = some m

/-- A smaller limit lists a beginning of what a larger one lists. -/
theorem firstOf_isPrefix {α : Type} {limit limit' : Option Nat} (h : AtMost limit limit')
    (l : List α) : firstOf limit l <+: firstOf limit' l := by
  cases limit' with
  | none =>
    cases limit with
    | none => exact List.prefix_refl l
    | some m => exact List.take_prefix m l
  | some n =>
    obtain ⟨m, hmn, rfl⟩ := h
    exact List.take_prefix_take_left hmn

/-- All errors of the source at a path, as a check finds them. -/
def errorsOf (files : Files) (path : String) : List Finding :=
  ((files.readSource path).toOption.bind fun source =>
    (Scanner.ofSource source).collect.toOption).elim [] fun q => reported path q.1

/-- The errors of a file are those of its scan. -/
theorem errorsOf_eq {files : Files} {path source : String} {ts : List Token}
    (hread : files.readSource path = .ok source)
    (hscan : (Scanner.ofSource source).collect.map (·.1) = .ok ts) :
    errorsOf files path = reported path ts := by
  obtain ⟨q, hq, rfl⟩ := Fault.map_eq_ok.1 hscan
  rw [errorsOf, hread]
  show ((Scanner.ofSource source).collect.toOption).elim [] _ = _
  rw [hq]
  rfl

/-! ## Two reports -/

/-- Reports on the same files under two limits, where `found` holds all errors of each file. -/
structure Agree (limit limit' : Option Nat) (found : List (List Finding)) (r r' : Report) :
    Prop where
  files_eq : r'.files = r.files
  tokens_eq : r'.tokens = r.tokens
  errors_eq : r'.errors = r.errors
  findings_eq : r.findings = found.flatMap (firstOf limit)
  findings_eq' : r'.findings = found.flatMap (firstOf limit')

variable {limit limit' : Option Nat} {found : List (List Finding)} {tally tally' : Tally}

/-- The count of one file, by induction on its tokens. -/
theorem counted_foldl (limit : Option Nat) (tally : Tally) (path : String) (ts : List Token) :
    Counted limit tally ts.length (reported path ts)
      (ts.foldl (Progress.count limit path) (.start tally)) := by
  have hstart : Counted limit tally 0 (reported path []) (.start tally) := .start limit tally
  have h := hstart.foldl ts
  rwa [List.nil_append, Nat.zero_add] at h

/-- What the errors of one more file come to under the two limits. -/
theorem Agree.addTokens (h : Agree limit limit' found tally.report tally'.report) (path : String)
    (ts : List Token) :
    Agree limit limit' (found ++ [reported path ts])
      (ts.foldl (Progress.count limit path) (.start tally)).finish.report
      (ts.foldl (Progress.count limit' path) (.start tally')).finish.report := by
  have hcounted := counted_foldl limit tally path ts
  have hcounted' := counted_foldl limit' tally' path ts
  have hfiles : tally'.files = tally.files := h.files_eq
  have htokens : tally'.tokens = tally.tokens := h.tokens_eq
  have herrors : tally'.errors = tally.errors := h.errors_eq
  -- Both counts go over the same tokens, so only what is listed depends on the limit.
  constructor
  · show _ + 1 = _ + 1
    rw [hcounted.files_eq, hcounted'.files_eq, hfiles]
  · show (_ : Progress).tally.tokens = (_ : Progress).tally.tokens
    rw [hcounted.tokens_eq, hcounted'.tokens_eq, htokens]
  · show (_ : Progress).tally.errors + (_ : Progress).errors =
      (_ : Progress).tally.errors + (_ : Progress).errors
    rw [hcounted.tally_errors_eq, hcounted'.tally_errors_eq, hcounted.errors_eq,
      hcounted'.errors_eq, herrors]
  · have hfindings : tally.findings.toList = found.flatMap (firstOf limit) := h.findings_eq
    rw [List.flatMap_append, List.flatMap_singleton, ← hfindings]
    exact hcounted.findings_eq
  · have hfindings : tally'.findings.toList = found.flatMap (firstOf limit') := h.findings_eq'
    rw [List.flatMap_append, List.flatMap_singleton, ← hfindings]
    exact hcounted'.findings_eq

end Check

namespace Run

open Check

variable {files : Files} {limit limit' : Option Nat} {found : List (List Finding)}
  {tally tally' : Tally}

/-! ## Two checks -/

theorem readSource_of_loadSource {path source : String}
    (h : (loadSource files path).result = .ok source) : files.readSource path = .ok source := by
  cases hread : files.readSource path with
  | error f =>
    rw [result_loadSource_of_error hread] at h
    cases h
  | ok s =>
    rw [result_loadSource hread] at h
    rw [Except.ok.inj h]

theorem scan_of_recordScan {scan : Except Fault (List Token)} {ts : List Token}
    (h : (recordScan scan).result = .ok ts) : scan = .ok ts := by
  rw [result_recordScan] at h
  cases scan with
  | error fault => cases h
  | ok us =>
    cases h
    rfl

/-- One file keeps two checks alike. -/
theorem twins_checkFile (path : String)
    (h : Agree limit limit' found tally.report tally'.report) :
    Transcript.Twins
      (fun t t' => Agree limit limit' (found ++ [errorsOf files path]) t.report t'.report)
      (checkFile files limit tally path) (checkFile files limit' tally' path) := by
  unfold checkFile
  refine Transcript.Twins.bind_same fun source hsource => ?_
  refine Transcript.Twins.bind_same fun ts hts => ?_
  have hfound := errorsOf_eq (readSource_of_loadSource hsource) (scan_of_recordScan hts)
  -- The event of the file counts all its errors.
  have hevent : (ts.foldl (Progress.count limit' path) (.start tally')).errors =
      (ts.foldl (Progress.count limit path) (.start tally)).errors := by
    rw [(counted_foldl limit' tally' path ts).errors_eq,
      (counted_foldl limit tally path ts).errors_eq]
  simp only [hevent]
  refine Transcript.Twins.bind_same fun _ _ => Transcript.Twins.pure ?_
  rw [hfound]
  exact h.addTokens path ts

/-- Two checks with different limits go the same way, by induction on the files. -/
theorem twins_foldlM_checkFile (paths : List String)
    (h : Agree limit limit' found tally.report tally'.report) :
    Transcript.Twins
      (fun t t' => Agree limit limit' (found ++ paths.map (errorsOf files)) t.report t'.report)
      (paths.foldlM (checkFile files limit) tally)
      (paths.foldlM (checkFile files limit') tally') := by
  -- On the files to come; the errors of a file that has been checked move to `found`.
  induction paths generalizing found tally tally' with
  | nil =>
    rw [List.map_nil, List.append_nil]
    exact Transcript.Twins.pure h
  | cons path paths ih =>
    rw [List.foldlM_cons, List.foldlM_cons, List.map_cons, List.append_cons]
    exact (twins_checkFile path h).bind fun _ _ hnext => ih hnext

/-- Checks under two limits write the same up to where they stop, and else come to reports that are
    alike. -/
theorem twins_check (files : Files) (limit limit' : Option Nat) (paths : List String) :
    Transcript.Twins (Agree limit limit' (paths.map (errorsOf files))) (check files limit paths)
      (check files limit' paths) := by
  by_cases hne : paths = []
  · subst hne
    exact ⟨rfl, .inl ⟨_, rfl, rfl⟩⟩
  · have hempty : Agree limit limit' [] Tally.empty.report Tally.empty.report :=
      ⟨rfl, rfl, rfl, rfl, rfl⟩
    rw [check_eq _ _ hne, check_eq _ _ hne]
    exact (twins_foldlM_checkFile paths hempty).bind fun _ _ h => Transcript.Twins.pure h

/-- Either both commands do the same and stop before anything is listed, or both write the same
    details and then reports that are alike. -/
theorem checkCommand_limits (files : Files) (limit limit' : Option Nat) (paths : List String) :
    (checkCommand files limit' paths = checkCommand files limit paths ∧
      (checkCommand files limit paths).Quiet ∧
      ∃ stop, (checkCommand files limit paths).result = .error stop) ∨
    ∃ details report report', (∀ l ∈ details, l.isDetail = true) ∧
      Agree limit limit' (paths.map (errorsOf files)) report report' ∧
      checkCommand files limit paths = ⟨details ++ report.written,
        if report.errors = 0 then .ok () else .error (.failure (.lexicalErrors report.errors))⟩ ∧
      checkCommand files limit' paths = ⟨details ++ report'.written,
        if report.errors = 0 then .ok ()
        else .error (.failure (.lexicalErrors report.errors))⟩ := by
  have htwins := twins_check files limit limit' paths
  -- Either both stop at the same file, or both finish with reports that agree.
  rcases htwins.results with ⟨stop, hx, hy⟩ | ⟨report, report', hx, hy, hagree⟩
  · left
    have hcommand : checkCommand files limit' paths = checkCommand files limit paths := by
      unfold checkCommand
      rw [Transcript.bind_error hx, Transcript.bind_error hy, htwins.lines_eq]
    exact ⟨hcommand, (checkCommand_of_error hx).1, stop, (checkCommand_of_error hx).2⟩
  · right
    obtain ⟨hlines, hresult⟩ := lines_checkCommand_of_ok hx
    obtain ⟨hlines', hresult'⟩ := lines_checkCommand_of_ok hy
    rw [htwins.lines_eq] at hlines'
    rw [hagree.errors_eq] at hresult'
    refine ⟨.event (.runningCommand "check") :: (check files limit paths).lines, report, report',
      List.forall_mem_cons.2 ⟨rfl, quiet_check files limit paths⟩, hagree, ?_, ?_⟩
    · rw [← hlines, ← hresult]
    · rw [← hlines', ← hresult']

end Run

end Lexis

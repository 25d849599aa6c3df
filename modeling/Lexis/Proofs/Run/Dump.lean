/-
  Lexis.Proofs.Run.Dump

  A dump is made of the lists of all tokens of its sources.

  Whatever a run records on the way, its result is the dump of what `tokenize` yields for each
  source, or the limit that the first source to pass one passes.
-/

import Lexis.Proofs.Run.Check

namespace Lexis

/-- The dump of files in a format. -/
def Dump.written (format : Format) (spans : Bool) (files : List File) : String :=
  match format with
  | .text => text spans files
  | .json => json files

namespace Run

variable {sources : List (String × String)} {files : List Dump.File}

/-- The tokens of sources, each list with the path that its source was read from. -/
def scanned (sources : List (String × String)) : Except Fault (List Dump.File) :=
  sources.mapM fun s => (tokenize s.2).map (Dump.File.mk s.1)

theorem result_scanFile (format : Format) (path source : String) :
    (scanFile format path source).result =
      ((tokenize source).map (Dump.File.mk path)).mapError .fault := by
  unfold scanFile
  rw [Transcript.result_bind, result_recordScan]
  cases tokenize source with
  | error fault => rfl
  | ok ts => cases format <;> rfl

/-- A limit passed by one of the sources is reported as it is. -/
theorem mapM_mapError {α β ε ε' : Type} (f : α → Except ε β) (e : ε → ε') (l : List α) :
    (l.mapM fun a => (f a).mapError e) = (l.mapM f).mapError e := by
  induction l with
  | nil => rfl
  | cons a l ih =>
    rw [List.mapM_cons, List.mapM_cons, ih]
    cases f a with
    | error x => rfl
    | ok b => cases l.mapM f <;> rfl

/-- Rendering scans all the files first and writes them then. -/
theorem result_render (format : Format) (spans : Bool) (sources : List (String × String)) :
    (render format spans sources).result =
      ((scanned sources).map (Dump.written format spans)).mapError .fault := by
  have hscan : (sources.mapM fun s => scanFile format s.1 s.2).result =
      (scanned sources).mapError .fault := by
    rw [Transcript.result_mapM, scanned, ← mapM_mapError]
    congr 1
    funext s
    exact result_scanFile format s.1 s.2
  unfold render
  rw [Transcript.result_bind, hscan]
  cases scanned sources with
  | error fault => rfl
  | ok files => cases format <;> rfl

/-- Calls in a row succeed if each of them does. -/
theorem mapM_eq_ok_iff {α β ε : Type} {f : α → Except ε β} {l : List α} {r : List β} :
    l.mapM f = .ok r ↔ List.Forall₂ (fun a b => f a = .ok b) l r := by
  -- Both sides take the elements one by one and stop at the first failure.
  induction l generalizing r with
  | nil =>
    rw [List.forall₂_nil_left_iff]
    exact ⟨fun h => (Except.ok.inj h).symm, fun h => h ▸ rfl⟩
  | cons a l ih =>
    rw [List.forall₂_cons_left_iff, List.mapM_cons]
    constructor
    · intro h
      cases hhead : f a with
      | error x =>
        rw [hhead] at h
        cases h
      | ok b =>
        cases htail : l.mapM f with
        | error x =>
          rw [hhead, htail] at h
          cases h
        | ok bs =>
          rw [hhead, htail] at h
          exact ⟨b, bs, rfl, ih.1 htail, (Except.ok.inj h).symm⟩
    · rintro ⟨b, bs, hhead, htail, rfl⟩
      rw [hhead, ih.2 htail]
      rfl

/-- What scanned files are made of: the paths as given, and all tokens of the sources. -/
theorem scanned_eq_ok_iff :
    scanned sources = .ok files ↔
      List.Forall₂ (fun s f => f.path = s.1 ∧ tokenize s.2 = .ok f.tokens) sources files := by
  have hfile : ∀ (s : String × String) (f : Dump.File),
      (tokenize s.2).map (Dump.File.mk s.1) = .ok f ↔
        f.path = s.1 ∧ tokenize s.2 = .ok f.tokens := by
    rintro s ⟨path, tokens⟩
    cases tokenize s.2 with
    | error fault => simp [Except.map]
    | ok ts => simp [Except.map, eq_comm]
  rw [scanned, mapM_eq_ok_iff]
  simp only [hfile]

/-- A dump succeeds with the written form of its scanned files. -/
theorem result_render_eq_ok_iff {format : Format} {spans : Bool} {out : String} :
    (render format spans sources).result = .ok out ↔
      ∃ files, scanned sources = .ok files ∧ out = Dump.written format spans files := by
  rw [result_render]
  cases scanned sources with
  | error fault =>
    constructor
    · intro h
      cases h
    · rintro ⟨files, hfiles, -⟩
      cases hfiles
  | ok files =>
    constructor
    · intro h
      exact ⟨files, rfl, (Except.ok.inj h).symm⟩
    · rintro ⟨files', hfiles, rfl⟩
      cases hfiles
      rfl

/-- Sources whose lines can be numbered are scanned. -/
theorem exists_scanned (h : ∀ s ∈ sources, Scannable s.2) :
    ∃ files, scanned sources = .ok files := by
  refine ⟨sources.map fun s => ⟨s.1, tokens s.2⟩, ?_⟩
  rw [scanned_eq_ok_iff, List.forall₂_map_right_iff, List.forall₂_same]
  exact fun s hs => ⟨rfl, tokenize_of_scannable (h s hs)⟩

/-- The tokens of a file that was scanned end with the end token. -/
theorem exists_tokens_eq (h : scanned sources = .ok files) :
    ∀ f ∈ files, ∃ us t, f.tokens = us ++ [t] ∧ t.kind = .eof := by
  induction scanned_eq_ok_iff.1 h with
  | nil => exact fun f hf => nomatch hf
  | cons hf hfiles ih =>
    exact List.forall_mem_cons.2 ⟨exists_of_tokenize hf.2, ih (scanned_eq_ok_iff.2 hfiles)⟩

/-- Every file has a token, the end of its text. -/
theorem tokens_ne_nil (h : scanned sources = .ok files) : ∀ f ∈ files, f.tokens ≠ [] := by
  intro f hf
  obtain ⟨us, t, htokens, -⟩ := exists_tokens_eq h f hf
  rw [htokens]
  exact List.append_ne_nil_of_right_ne_nil us (List.cons_ne_nil t [])

/-- The same files come from sources with the same paths and tokens. -/
theorem map_of_scanned (h : scanned sources = .ok files) :
    sources.map (·.1) = files.map (·.path) ∧
      sources.map (tokenize ·.2) = files.map (.ok ·.tokens) := by
  induction scanned_eq_ok_iff.1 h with
  | nil => exact ⟨rfl, rfl⟩
  | cons hf hfiles ih =>
    obtain ⟨hpaths, htokens⟩ := ih (scanned_eq_ok_iff.2 hfiles)
    rw [List.map_cons, List.map_cons, List.map_cons, List.map_cons, hf.1, hf.2, hpaths, htokens]
    exact ⟨rfl, rfl⟩

end Run

end Lexis

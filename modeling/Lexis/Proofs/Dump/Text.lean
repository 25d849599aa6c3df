/-
  Lexis.Proofs.Dump.Text

  A text dump can be read back.

  No line of a dump holds a line feed, so a dump is cut into its lines again. A line that names a
  file starts unlike any line of a token: where files are named, the first such line starts a file
  and the next ends it. Each line of a token determines the token.
-/

import Lexis.Proofs.Dump.Line
import Lexis.Proofs.Run.Dump

namespace Lexis

namespace Dump

variable {f f' : File} {files files' : List File} {spans : Bool}

/-! ## Lines that name a file -/

theorem toList_headerLine (f : File) :
    (headerLine f).toList = "==> ".toList ++ f.path.toList ++ " <==".toList := by
  rw [headerLine, String.toList_append, String.toList_append]

/-- A header line names its file. -/
theorem path_of_headerLine_eq (h : headerLine f = headerLine f') : f.path = f'.path := by
  have hlist := congrArg String.toList h
  rw [toList_headerLine, toList_headerLine] at hlist
  exact String.toList_injective (List.append_cancel_left (List.append_cancel_right hlist))

/-- A header is one line if the path is one. -/
theorem lineFeed_not_mem_headerLine (h : '\n' ∉ f.path.toList) :
    '\n' ∉ (headerLine f).toList := by
  rw [toList_headerLine, List.mem_append, List.mem_append]
  rintro ((hmem | hmem) | hmem)
  · exact absurd hmem (by decide)
  · exact h hmem
  · exact absurd hmem (by decide)

/-- Whether a line starts like one that names a file. -/
def isHeader (line : String) : Bool :=
  line.toList.head? == some '='

theorem isHeader_headerLine (f : File) : isHeader (headerLine f) = true := by
  rw [isHeader, toList_headerLine]
  rfl

/-- The line of a token starts with a space or a digit. -/
theorem isHeader_tokenLine (spans : Bool) (t : Token) : isHeader (tokenLine spans t) = false := by
  rw [isHeader, beq_eq_false_iff_ne, toList_tokenLine]
  intro hhead
  obtain ⟨n, hline⟩ := exists_eq_trimEnd_append (lineFront t ++ lineEnd spans t)
  obtain ⟨cs, htrim⟩ := List.head?_eq_some_iff.1 hhead
  obtain ⟨c, front, hfront, hc⟩ := exists_lineFront_eq_cons t
  rw [htrim, hfront] at hline
  rw [(List.cons.inj hline).1] at hc
  exact absurd hc (by decide)

/-! ## Lines of several files -/

/-- The lines of a file with its name before them. -/
def namedLines (spans : Bool) (f : File) : List String :=
  headerLine f :: fileLines spans f

/-- The lines of a file end where the next file is named. -/
theorem takeWhile_flatMap_namedLines (spans : Bool) (files : List File) :
    (files.flatMap (namedLines spans)).takeWhile (fun l => !isHeader l) = [] := by
  cases files with
  | nil => rfl
  | cons f files =>
    rw [List.flatMap_cons, namedLines, List.cons_append]
    exact List.takeWhile_cons_of_neg (by simp [isHeader_headerLine])

/-- No line of a token is told as a header. -/
theorem isHeader_of_mem_fileLines {l : String} (h : l ∈ fileLines spans f) :
    (!isHeader l) = true := by
  obtain ⟨t, -, rfl⟩ := List.mem_map.1 h
  rw [isHeader_tokenLine, Bool.not_false]

/-- With spans the lines of a file determine its tokens. -/
theorem fileLines_true_inj (h : fileLines true f = fileLines true f') : f.tokens = f'.tokens :=
  List.map_injective_iff.2 tokenLine_true_injective h

/-- Named lines determine the files. -/
theorem flatMap_namedLines_injective :
    Function.Injective fun files => List.flatMap (namedLines true) files := by
  intro files files' h
  simp only at h
  induction files generalizing files' with
  | nil =>
    cases files' with
    | nil => rfl
    | cons f' files' => cases h
  | cons f files ih =>
    cases files' with
    | nil => cases h
    | cons f' files' =>
      -- The header tells the path, and the lines up to the next header the tokens.
      rw [List.flatMap_cons, List.flatMap_cons, namedLines, namedLines, List.cons_append,
        List.cons_append, List.cons.injEq] at h
      obtain ⟨htokens, hfiles⟩ := append_inj_of_takeWhile (fun _ => isHeader_of_mem_fileLines)
        (fun _ => isHeader_of_mem_fileLines) (takeWhile_flatMap_namedLines true files)
        (takeWhile_flatMap_namedLines true files') h.2
      have hf : f = f' := by
        have hpath := path_of_headerLine_eq h.1
        have htokens := fileLines_true_inj htokens
        cases f
        cases f'
        cases hpath
        cases htokens
        rfl
      rw [hf, ih hfiles]

/-! ## Lines of a dump -/

/-- With several files each has its header in front of its lines. -/
theorem lines_of_several (h : 1 < files.length) :
    lines spans files = files.flatMap (namedLines spans) := by
  simp only [lines, if_pos h]
  rfl

theorem lines_singleton (spans : Bool) (f : File) : lines spans [f] = fileLines spans f := by
  rw [lines, List.flatMap_singleton]
  rfl

/-- There are lines that name files if there are several files. -/
theorem any_isHeader_lines (spans : Bool) (files : List File) :
    (lines spans files).any isHeader = decide (1 < files.length) := by
  match files with
  | [] => rfl
  | [f] =>
    rw [lines_singleton, decide_eq_false (by simp), List.any_eq_false]
    intro l hl
    simpa using isHeader_of_mem_fileLines hl
  | f :: f' :: files =>
    have hlength : 1 < (f :: f' :: files).length := by simp
    rw [lines_of_several hlength, decide_eq_true hlength, List.flatMap_cons, namedLines,
      List.cons_append, List.any_cons, isHeader_headerLine, Bool.true_or]

theorem fileLines_ne_nil (h : f.tokens ≠ []) : fileLines spans f ≠ [] :=
  fun hnil => h (List.map_eq_nil_iff.1 hnil)

/-- With spans the lines determine the tokens of each file, and the paths if there are several. -/
theorem tokens_of_lines_eq (hne : ∀ f ∈ files, f.tokens ≠ []) (hne' : ∀ f ∈ files', f.tokens ≠ [])
    (h : lines true files = lines true files') :
    files.map (·.tokens) = files'.map (·.tokens) ∧
      (1 < files.length → files.map (·.path) = files'.map (·.path)) := by
  -- Whether there are headers tells whether there are several files.
  have hseveral : 1 < files.length ↔ 1 < files'.length := by
    rw [← decide_eq_decide, ← any_isHeader_lines true, ← any_isHeader_lines true, h]
  by_cases hlength : 1 < files.length
  · rw [lines_of_several hlength, lines_of_several (hseveral.1 hlength)] at h
    rw [flatMap_namedLines_injective h]
    exact ⟨rfl, fun _ => rfl⟩
  · refine ⟨?_, fun hlt => absurd hlt hlength⟩
    have hlength' := hseveral.not.1 hlength
    -- Otherwise there is one file at most on either side.
    match files, files' with
    | [], [] => rfl
    | [], [f'] =>
      rw [lines_singleton] at h
      exact absurd h.symm (fileLines_ne_nil (hne' f' List.mem_cons_self))
    | [f], [] =>
      rw [lines_singleton] at h
      exact absurd h (fileLines_ne_nil (hne f List.mem_cons_self))
    | [f], [f'] =>
      rw [lines_singleton, lines_singleton] at h
      rw [List.map_singleton, List.map_singleton, fileLines_true_inj h]
    | _ :: _ :: _, _ => exact absurd (by simp) hlength
    | _, _ :: _ :: _ => exact absurd (by simp) hlength'

/-- No line of a dump holds a line feed. -/
theorem lineFeed_not_mem_lines (h : ∀ f ∈ files, '\n' ∉ f.path.toList) :
    ∀ l ∈ lines spans files, '\n' ∉ l.toList := by
  intro l hl
  obtain ⟨f, hf, hl⟩ := List.mem_flatMap.1 hl
  rcases List.mem_append.1 hl with hl | hl
  · split at hl
    · rw [List.mem_singleton.1 hl]
      exact lineFeed_not_mem_headerLine (h f hf)
    · cases hl
  · obtain ⟨t, -, rfl⟩ := List.mem_map.1 hl
    exact lineFeed_not_mem_tokenLine spans t

/-- Lines with a line feed behind each are found again at the line feeds. -/
theorem splitOn_flatMap_lines {ls : List String} (h : ∀ l ∈ ls, '\n' ∉ l.toList) :
    (ls.flatMap fun l => l.toList ++ ['\n']).splitOn '\n' = ls.map String.toList ++ [[]] := by
  induction ls with
  | nil => rfl
  | cons l ls ih =>
    obtain ⟨hl, hls⟩ := List.forall_mem_cons.1 h
    rw [List.flatMap_cons, List.append_assoc, List.singleton_append,
      List.splitOn_append_cons_self_of_not_mem hl, ih hls, List.map_cons, List.cons_append]

/-- A text dump is cut into its lines at the line feeds. -/
theorem splitOn_text (h : ∀ f ∈ files, '\n' ∉ f.path.toList) :
    (text spans files).toList.splitOn '\n' = (lines spans files).map String.toList ++ [[]] := by
  have hlist : (text spans files).toList =
      (lines spans files).flatMap fun l => l.toList ++ ['\n'] := by
    simp [text, String.toList_join, List.flatMap_map]
  rw [hlist, splitOn_flatMap_lines (lineFeed_not_mem_lines h)]

/-- Dumps with spans are the same only for the same lines. -/
theorem lines_of_text_eq (h : ∀ f ∈ files, '\n' ∉ f.path.toList)
    (h' : ∀ f ∈ files', '\n' ∉ f.path.toList) (heq : text spans files = text spans files') :
    lines spans files = lines spans files' := by
  have hsplit := congrArg (fun s : String => s.toList.splitOn '\n') heq
  simp only [splitOn_text h, splitOn_text h'] at hsplit
  exact List.map_injective_iff.2 (fun _ _ => String.toList_injective)
    (List.append_cancel_right hsplit)

end Dump

namespace Run

variable {sources : List (String × String)} {files : List Dump.File}

theorem lineFeed_not_mem_path (h : ∀ s ∈ sources, '\n' ∉ s.1.toList)
    (hfiles : scanned sources = .ok files) : ∀ f ∈ files, '\n' ∉ f.path.toList := by
  intro f hf
  have hpath : f.path ∈ sources.map (·.1) := by
    rw [(map_of_scanned hfiles).1]
    exact List.mem_map_of_mem hf
  obtain ⟨s, hs, hpath⟩ := List.mem_map.1 hpath
  rw [← hpath]
  exact h s hs

/-- A text dump with spans determines the tokens of each source, and the paths if there are several
    sources. It consists of one line for each token, the end token among them, and one for each of
    several files. A line with a span determines any token, and one without a span determines all
    else about a token that a source yields. -/
theorem tokens_of_render_text :
    (∀ (sources sources' : List (String × String)) (out : String),
      (∀ s ∈ sources ++ sources', '\n' ∉ s.1.toList) →
      (render .text true sources).result = .ok out →
      (render .text true sources').result = .ok out →
      (∃ tss : List (List Token), sources.map (tokenize ·.2) = tss.map .ok ∧
        sources'.map (tokenize ·.2) = tss.map .ok) ∧
      (1 < sources.length → sources.map (·.1) = sources'.map (·.1))) ∧
    (∀ (spans : Bool) (sources : List (String × String)) (out : String),
      (∀ s ∈ sources, '\n' ∉ s.1.toList) → (render .text spans sources).result = .ok out →
      ∃ files : List Dump.File,
        List.Forall₂ (fun s f => f.path = s.1 ∧ tokenize s.2 = .ok f.tokens) sources files ∧
        out.toList.splitOn '\n' = (files.flatMap fun f =>
          (if 1 < files.length then ["==> " ++ f.path ++ " <=="] else []) ++
            f.tokens.map (Dump.tokenLine spans)).map String.toList ++ [[]]) ∧
    (∀ (spans : Bool) (sources : List (String × String)), (∀ s ∈ sources, Scannable s.2) →
      ∃ out, (render .text spans sources).result = .ok out) ∧
    Function.Injective (Dump.tokenLine true) ∧
    ∀ (source source' : String) (t t' : Token), source.utf8ByteSize ≤ maxSize →
      source'.utf8ByteSize ≤ maxSize → Yields source t → Yields source' t' →
      Dump.tokenLine false t = Dump.tokenLine false t' →
      t.kind = t'.kind ∧ t.lexeme = t'.lexeme ∧ t.line = t'.line := by
  refine ⟨?_, ?_, ?_, Dump.tokenLine_true_injective, ?_⟩
  -- Two dumps with the same text come from the same lines.
  · intro sources sources' out hpaths hout hout'
    obtain ⟨hsources, hsources'⟩ := List.forall_mem_append.1 hpaths
    obtain ⟨files, hfiles, rfl⟩ := result_render_eq_ok_iff.1 hout
    obtain ⟨files', hfiles', htext⟩ := result_render_eq_ok_iff.1 hout'
    have hlines := Dump.lines_of_text_eq (lineFeed_not_mem_path hsources hfiles)
      (lineFeed_not_mem_path hsources' hfiles') htext
    obtain ⟨htokens, hnames⟩ :=
      Dump.tokens_of_lines_eq (tokens_ne_nil hfiles) (tokens_ne_nil hfiles') hlines
    obtain ⟨hpath, hscan⟩ := map_of_scanned hfiles
    obtain ⟨hpath', hscan'⟩ := map_of_scanned hfiles'
    refine ⟨⟨files.map (·.tokens), ?_, ?_⟩, ?_⟩
    · rw [hscan, List.map_map]
      rfl
    · rw [hscan', htokens, List.map_map]
      rfl
    · intro hlength
      have hlength' : 1 < files.length := by
        rwa [← List.length_map (f := (·.path)), ← hpath, List.length_map]
      rw [hpath, hpath', hnames hlength']
  -- The lines of a dump, by its files.
  · intro spans sources out hpaths hout
    obtain ⟨files, hfiles, rfl⟩ := result_render_eq_ok_iff.1 hout
    exact ⟨files, scanned_eq_ok_iff.1 hfiles,
      Dump.splitOn_text (lineFeed_not_mem_path hpaths hfiles)⟩
  · intro spans sources h
    obtain ⟨files, hfiles⟩ := exists_scanned h
    exact ⟨_, result_render_eq_ok_iff.2 ⟨files, hfiles, rfl⟩⟩
  -- Without spans a line still tells the token that was yielded.
  · intro source source' t t' hsize hsize' ht ht' h
    exact Dump.eq_of_tokenLine_false_eq (mem_tokens_of_yields hsize ht)
      (mem_tokens_of_yields hsize' ht') h

/-- Sources that differ in their blanks, one with a line feed and a backslash in a string. -/
def spaced : List (String × String) :=
  [("a", "x  y"), ("b b", "\"\n\\\"")]

/-- The same with a tab among the blanks. -/
def tabbed : List (String × String) :=
  [("a", "x\t y"), ("b b", "\"\n\\\"")]

/-- The dump of either. -/
def spacedDump : String :=
  "==> a <==\n" ++
  "   1 IDENTIFIER           x @0..1\n" ++
  "   1 IDENTIFIER           y @3..4\n" ++
  "   1 EOF                   @4..4\n" ++
  "==> b b <==\n" ++
  "   1 STRING               \\\"\\n\\\\\\\" @0..4\n" ++
  "   2 EOF                   @4..4\n"

/-- Two dumps that are the same, and a token that moves from one source to another. -/
theorem tokens_of_render_text_spaced :
    (∀ s ∈ spaced ++ tabbed, '\n' ∉ s.1.toList) ∧
      (render .text true spaced).result = .ok spacedDump ∧
      (render .text true tabbed).result = .ok spacedDump ∧
      (∃ tss : List (List Token), spaced.map (tokenize ·.2) = tss.map .ok ∧
        tabbed.map (tokenize ·.2) = tss.map .ok) ∧
      spaced.map (·.1) = tabbed.map (·.1) ∧
      (∃ files : List Dump.File,
        List.Forall₂ (fun s f => f.path = s.1 ∧ tokenize s.2 = .ok f.tokens) spaced files ∧
        spacedDump.toList.splitOn '\n' = (files.flatMap fun f =>
          (if 1 < files.length then ["==> " ++ f.path ++ " <=="] else []) ++
            f.tokens.map (Dump.tokenLine true)).map String.toList ++ [[]]) ∧
      (∀ s ∈ spaced, Scannable s.2) ∧ (∃ out, (render .text false spaced).result = .ok out) ∧
      Yields "x  y" ⟨.identifier, "y", 1, ⟨3, 4⟩⟩ ∧ Yields "y" ⟨.identifier, "y", 1, ⟨0, 1⟩⟩ ∧
      Dump.tokenLine false ⟨.identifier, "y", 1, ⟨3, 4⟩⟩ =
        Dump.tokenLine false ⟨.identifier, "y", 1, ⟨0, 1⟩⟩ ∧
      (Kind.identifier = Kind.identifier ∧ "y" = "y" ∧ 1 = 1) := by
  have hpaths : ∀ s ∈ spaced ++ tabbed, '\n' ∉ s.1.toList := by decide +kernel
  have hspaced : (render .text true spaced).result = .ok spacedDump := by decide +kernel
  have htabbed : (render .text true tabbed).result = .ok spacedDump := by decide +kernel
  have hscan : ∀ s ∈ spaced, Scannable s.2 := by
    have hsizes : ∀ s ∈ spaced, s.2.utf8ByteSize ≤ maxSize := by decide +kernel
    have hlines : ∀ s ∈ spaced, Text.lineFeeds s.2.toList < Cursor.maxLine := by decide +kernel
    exact fun s hs => ⟨hsizes s hs, hlines s hs⟩
  have hboth : tokenize "x  y" = .ok [⟨.identifier, "x", 1, ⟨0, 1⟩⟩,
      ⟨.identifier, "y", 1, ⟨3, 4⟩⟩, ⟨.eof, "", 1, ⟨4, 4⟩⟩] := by decide +kernel
  have hone : tokenize "y" = .ok [⟨.identifier, "y", 1, ⟨0, 1⟩⟩, ⟨.eof, "", 1, ⟨1, 1⟩⟩] := by
    decide +kernel
  have hy : Yields "x  y" ⟨.identifier, "y", 1, ⟨3, 4⟩⟩ := .all hboth (by decide)
  have hy' : Yields "y" ⟨.identifier, "y", 1, ⟨0, 1⟩⟩ := .all hone (by decide)
  have hline : Dump.tokenLine false ⟨.identifier, "y", 1, ⟨3, 4⟩⟩ =
      Dump.tokenLine false ⟨.identifier, "y", 1, ⟨0, 1⟩⟩ := by decide +kernel
  obtain ⟨hsame, hlines, hout, -, hyields⟩ := tokens_of_render_text
  obtain ⟨htokens, hnames⟩ := hsame spaced tabbed spacedDump hpaths hspaced htabbed
  exact ⟨hpaths, hspaced, htabbed, htokens, hnames (by decide),
    hlines true spaced spacedDump (List.forall_mem_append.1 hpaths).1 hspaced, hscan,
    hout false spaced hscan, hy, hy', hline,
    hyields "x  y" "y" _ _ (by decide) (by decide) hy hy' hline⟩

end Run

end Lexis

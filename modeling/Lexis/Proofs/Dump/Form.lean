/-
  Lexis.Proofs.Dump.Form

  What a dump is, said by its lines or by its value.

  A text dump is a line for each token, and for each of several files a line with its path before
  those of its tokens. What a line shows is said by its columns. A JSON dump is any text that stands
  for the records of the files and for nothing else.
-/

import Lexis.Proofs.Dump.Json
import Lexis.Proofs.Dump.Line

namespace Lexis.Dump

variable {spans : Bool} {f : File} {files : List File} {t : Token}

/-! ## Lines -/

/-- What the line of a token shows: in columns its line number, to the right of four, and its kind,
    to the left of twenty; then its escaped lexeme, and its span if that is asked for. -/
def columns (spans : Bool) (t : Token) : List Char :=
  List.replicate (4 - (toString t.line).length) ' ' ++ (toString t.line).toList ++ [' '] ++
    t.kind.name.toList ++ List.replicate (20 - t.kind.name.length) ' ' ++ [' '] ++
    Text.escape t.lexeme.toList ++
    if spans then (" @" ++ toString t.span.start ++ ".." ++ toString t.span.stop).toList else []

/-- A line is that of a token: what it shows, without the spaces at the end. -/
def IsTokenLine (spans : Bool) (t : Token) (line : String) : Prop :=
  (∃ n, columns spans t = line.toList ++ List.replicate n ' ') ∧ line.toList.getLast? ≠ some ' '

/-- The lines of a file: its path if files are named, then a line for each token. -/
def IsFileLines (named spans : Bool) (f : File) (lines : List String) : Prop :=
  ∃ tokenLines, List.Forall₂ (IsTokenLine spans) f.tokens tokenLines ∧
    lines = (if named then ["==> " ++ f.path ++ " <=="] else []) ++ tokenLines

/-- A text is the dump of some files in a format. -/
inductive IsDump (spans : Bool) (files : List File) : Format → String → Prop where
  /-- Files are named if there are several, and a line feed stands behind each line. -/
  | text {lines : List (List String)} {out : String}
      (hlines : List.Forall₂ (IsFileLines (1 < files.length) spans) files lines)
      (hout : out.toList = lines.flatten.flatMap fun line => line.toList ++ ['\n']) :
      IsDump spans files .text out
  | json {out : String}
      (hvalue : ∀ v, Json.IsText out.toList v ↔ v = .array (files.map fileValue)) :
      IsDump spans files .json out

theorem toList_toString (n : Nat) : (toString n).toList = digits n :=
  String.toList_ofList

/-- The columns are what a line is trimmed from. -/
theorem columns_eq (spans : Bool) (t : Token) :
    columns spans t = lineFront t ++ lineEnd spans t := by
  have hmark : (" @" ++ toString t.span.start ++ ".." ++ toString t.span.stop).toList =
      spanMark t.span := by
    simp [spanMark, digits]
  have hnumber : (toString t.line).length = (digits t.line).length := by
    rw [← String.length_toList, toList_toString]
  rw [columns, hmark, hnumber, toList_toString, lineFront, lineEnd, List.leftpad, List.rightpad,
    String.length_toList]
  simp only [List.append_assoc, List.cons_append, List.nil_append]

/-- What is trimmed does not end in a space. -/
theorem getLast?_trimEnd (cs : List Char) : (trimEnd cs).getLast? ≠ some ' ' := by
  rw [trimEnd, List.getLast?_reverse]
  intro hhead
  have hkept := List.head?_dropWhile_not (fun c : Char => decide (c = ' ')) cs.reverse
  rw [hhead] at hkept
  exact absurd hkept (by decide)

/-- The line that is written for a token has the form of its line. -/
theorem isTokenLine_tokenLine (spans : Bool) (t : Token) :
    IsTokenLine spans t (tokenLine spans t) := by
  rw [IsTokenLine, toList_tokenLine, columns_eq]
  exact ⟨exists_eq_trimEnd_append _, getLast?_trimEnd _⟩

/-! ## Dumps -/

/-- The lines of a file as a dump writes them. -/
theorem isFileLines_fileLines (named spans : Bool) (f : File) :
    IsFileLines named spans f
      ((if named then [headerLine f] else []) ++ fileLines spans f) := by
  refine ⟨fileLines spans f, ?_, rfl⟩
  rw [fileLines, List.forall₂_map_right_iff, List.forall₂_same]
  exact fun t _ => isTokenLine_tokenLine spans t

/-- What is written of files is their dump. -/
theorem isDump_written (format : Format) (spans : Bool) (files : List File) :
    IsDump spans files format (written format spans files) := by
  cases format with
  | text =>
    have hlines : List.Forall₂ (IsFileLines (1 < files.length) spans) files
        (files.map fun f => (if 1 < files.length then [headerLine f] else []) ++
          fileLines spans f) := by
      rw [List.forall₂_map_right_iff, List.forall₂_same]
      intro f _
      have hfile := isFileLines_fileLines (decide (1 < files.length)) spans f
      simpa only [decide_eq_true_eq] using hfile
    refine .text hlines ?_
    show (text spans files).toList = _
    rw [text, String.toList_join, lines, List.flatMap_def]
    simp [List.flatMap_def, List.map_flatten, List.map_map, Function.comp_def]
  | json => exact .json fun v => isText_json_iff

end Lexis.Dump

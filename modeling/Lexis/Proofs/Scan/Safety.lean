/-
  Lexis.Proofs.Scan.Safety

  The line limit is all that can stop a scan.

  Slices are taken by byte offsets in every rule, and each of them would be a fault if an end were
  out of place. Every cursor that a session reaches has read a beginning of its source, so none is;
  what remains is the number of lines, and it is exactly the line feeds read that count.
-/

import Lexis.Proofs.Scan.Replay

namespace Lexis

open Lexis.Text

namespace Cursor

/-- Whatever a cursor is asked for where it stands, it can look up. -/
structure Usable (c : Cursor) : Prop where
  remaining : ∃ rest, c.remaining = .ok rest
  peek : ∀ n, c.position + n ≤ maxOffset → ∃ x, c.peek n = .ok x
  sliceFrom : ∀ n ≤ c.position, (⟨n⟩ : String.Pos.Raw).IsValid c.source →
    ∃ text, c.sliceFrom n = .ok text

/-- A cursor that has read a beginning of its source is usable. -/
theorem usable_after {source : String} {u r : List Char} (h : Parts source u r) :
    (after source u).Usable where
  remaining := ⟨_, remaining_after h⟩
  peek := fun n hn => ⟨_, peek_after h hn⟩
  sliceFrom := by
    -- Both ends are places of the source, and the cursor is not before the first.
    intro n hn hvalid
    rw [after_position] at hn
    obtain ⟨q, hq, -⟩ := place_after h u
    obtain ⟨p, hp⟩ : ∃ p, (after source u).place n = .ok p := ⟨_, dif_pos hvalid⟩
    unfold Cursor.sliceFrom
    rw [hp, after_position, hq, Fault.ok_bind, Fault.ok_bind, if_pos hn]
    exact ⟨_, rfl⟩

end Cursor

namespace Scanner

open Lexis.Cursor

theorem At.usable {source : String} {s : Scanner} {i : Nat} (hs : At source s i)
    (hsize : source.utf8ByteSize ≤ maxOffset) : s.cursor.Usable := by
  obtain ⟨r, hr⟩ := taken_isPrefix_self source.toList i
  rw [hs.cursor_eq]
  exact usable_after ⟨hr.symm, hsize⟩

namespace Session

variable {source : String}

/-- No run fails but by a step behind which there are too many lines. -/
theorem run_eq_error (hsize : source.utf8ByteSize ≤ maxOffset) {steps : List Step} {fault : Fault}
    (h : (ofSource source).run steps = .error fault) :
    fault = .lineOverflow ∧ ∃ out ∈ Bookmark.run source (tokens source) ⟨0, 0⟩ steps,
      maxLine ≤ lineFeeds (taken source.toList out.2.index) := by
  -- Either the run comes behind too many lines, or no step of it fails.
  by_cases hlines : ∃ out ∈ Bookmark.run source (tokens source) ⟨0, 0⟩ steps,
      maxLine ≤ lineFeeds (taken source.toList out.2.index)
  · rw [run_of_le hsize (follows_ofSource source) steps hlines] at h
    cases h
    exact ⟨rfl, hlines⟩
  · have hall : ∀ out ∈ Bookmark.run source (tokens source) ⟨0, 0⟩ steps,
        lineFeeds (taken source.toList out.2.index) < maxLine := by
      intro out hout
      by_contra hle
      exact hlines ⟨out, hout, Nat.not_lt.1 hle⟩
    obtain ⟨outs, hrun, -⟩ := run_of_lt hsize (follows_ofSource source) steps hall
    rw [hrun] at h
    cases h

/-- A run that keeps to the line limit succeeds, and every cursor on the way is usable. -/
theorem run_eq_ok (hsize : source.utf8ByteSize ≤ maxOffset) {steps : List Step}
    (hlines : ∀ out ∈ Bookmark.run source (tokens source) ⟨0, 0⟩ steps,
      lineFeeds (taken source.toList out.2.index) < maxLine) :
    ∃ outs, (ofSource source).run steps = .ok outs ∧
      ∀ q ∈ outs, q.2.scanner.cursor.Usable ∧ q.2.saved.cursor.Usable := by
  obtain ⟨outs, hrun, houts⟩ := run_of_lt hsize (follows_ofSource source) steps hlines
  have hboth := houts.imp fun q out hq =>
    And.intro (And.intro (hq.follows.scanner.usable hsize) (hq.follows.saved.usable hsize)) hq
  exact ⟨outs, hrun, ((List.forall₂_and_left _ _).1 hboth).1⟩

/-- Slices and offsets are safe in every run, and so are lines while those read keep to the limit;
    all tokens of a source can be had unless it has too many lines. -/
theorem run_safe {source : String} (hsize : source.utf8ByteSize ≤ maxSize) :
    (∀ steps, (∀ out ∈ Bookmark.run source (tokens source) ⟨0, 0⟩ steps,
        lineFeeds (taken source.toList out.2.index) < maxLine) →
      ∃ outs, (ofSource source).run steps = .ok outs ∧
        ∀ q ∈ outs, q.2.scanner.cursor.Usable ∧ q.2.saved.cursor.Usable) ∧
    (∀ steps fault, (ofSource source).run steps = .error fault → fault = .lineOverflow ∧
      ∃ out ∈ Bookmark.run source (tokens source) ⟨0, 0⟩ steps,
        maxLine ≤ lineFeeds (taken source.toList out.2.index)) ∧
    (∀ fault, tokenize source = .error fault ↔
      fault = .lineOverflow ∧ maxLine ≤ lineFeeds source.toList) := by
  have hoffset := size_le_maxOffset hsize
  refine ⟨fun _ => run_eq_ok hoffset, fun _ _ => run_eq_error hoffset, ?_⟩
  intro fault
  rw [tokenize_eq hoffset]
  by_cases hlt : lineFeeds source.toList < maxLine
  · rw [if_pos hlt]
    constructor
    · rintro ⟨⟩
    · rintro ⟨-, hle⟩
      exact absurd hlt (Nat.not_lt.2 hle)
  · rw [if_neg hlt]
    constructor
    · rintro ⟨⟩
      exact ⟨rfl, Nat.not_lt.1 hlt⟩
    · rintro ⟨rfl, -⟩
      rfl

theorem run_safe_small :
    "a\n\"é".utf8ByteSize ≤ maxSize ∧
      (∃ outs, (ofSource "a\n\"é").run [.scan, .save, .collect, .restore, .count] = .ok outs) ∧
      ∀ fault, tokenize "a\n\"é" ≠ .error fault := by
  have hsize : "a\n\"é".utf8ByteSize ≤ maxSize := by decide
  obtain ⟨hrun, -, htokenize⟩ := run_safe hsize
  refine ⟨hsize, ?_, ?_⟩
  · obtain ⟨outs, houts, -⟩ := hrun [.scan, .save, .collect, .restore, .count] (by decide +kernel)
    exact ⟨outs, houts⟩
  · intro fault hfault
    obtain ⟨-, hle⟩ := (htokenize fault).1 hfault
    exact absurd hle (by decide)

end Session

end Scanner

end Lexis

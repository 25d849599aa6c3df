/-
  Lexis.Proofs.Scan.Resume

  A scan taken up where another one stands.

  A token knows of the text before it only how many bytes and line feeds it has. So the tokens of a
  text are the same wherever it stands, but for a shift, and what a scanner still yields are the
  tokens of the text that it has not read, shifted to where that text starts.
-/

import Lexis.Proofs.Scan.Lines

namespace Lexis

open Lexis.Text Lexis.Cursor

/-- A token moved on by a number of bytes and lines. -/
def Token.shift (bytes lines : Nat) (t : Token) : Token :=
  { t with line := t.line + lines, span := ⟨t.span.start + bytes, t.span.stop + bytes⟩ }

variable {source : String} {u v r : List Char}

/-- A token further on is the token, moved. -/
theorem Piece.shift_token (p : Piece) (line bytes lines : Nat) (span : Span) :
    (p.token line span).shift bytes lines =
      p.token (line + lines) ⟨span.start + bytes, span.stop + bytes⟩ := by
  unfold token
  cases p.outcome with
  | ok kind => rfl
  | error e => rfl

/-- More text before an item shifts its token. -/
theorem Item.token_append (u v : List Char) (item : Item) :
    item.token (u ++ v) = (item.token v).shift (byteSize u) (lineFeeds u) := by
  have hline : 1 + lineFeeds (u ++ v ++ item.gap) =
      1 + lineFeeds (v ++ item.gap) + lineFeeds u := by
    simp only [lineFeeds_append]
    omega
  have hoffset : ∀ w, byteSize (u ++ v ++ w) = byteSize (v ++ w) + byteSize u := by
    intro w
    simp only [byteSize_append]
    omega
  rw [token, token, Piece.shift_token, hline, hoffset, hoffset]

/-- Tokens behind more text are the tokens, moved by its bytes and lines. -/
theorem tokensAfter_append (u v : List Char) (its : List Item) :
    tokensAfter (u ++ v) its =
      (tokensAfter v its).map (Token.shift (byteSize u) (lineFeeds u)) := by
  induction its generalizing v with
  | nil => rfl
  | cons item its ih =>
    rw [tokensAfter, tokensAfter, List.map_cons, Item.token_append, List.append_assoc, ih]

/-- The tokens of a text that stands after `u` are those of the text by itself, shifted. -/
theorem tokensAfter_items (u r : List Char) :
    tokensAfter u (items r) =
      (tokens (String.ofList r)).map (Token.shift (byteSize u) (lineFeeds u)) := by
  rw [tokens, String.toList_ofList, ← tokensAfter_append, List.append_nil]

/-- The text behind a beginning of a source that can be scanned can be scanned by itself. -/
theorem Scannable.behind (h : Scannable source) (hr : source.toList = u ++ r) :
    Scannable (String.ofList r) := by
  apply h.part (u := u) (r := [])
  rw [String.toList_ofList, List.append_nil, hr]

namespace Scanner

/-- A scanner that has read `u` still yields the tokens of the rest, shifted by `u`. -/
theorem drain_after {s : Scanner} (h : Scannable source) (hs : s.cursor = after source u)
    (hr : source.toList = u ++ r) :
    ∃ s', s.drain = .ok
      ((tokens (String.ofList r)).map (Token.shift (byteSize u) (lineFeeds u)), s') := by
  have hparts : Parts source u r := ⟨hr, size_le_maxOffset h.size_le⟩
  have hlines := h.lineFeeds_lt
  have hu : lineFeeds u < maxLine := by
    rw [hr, lineFeeds_append] at hlines
    omega
  rw [hr] at hlines
  obtain ⟨s', hdrain, -⟩ := (draws_drain hs hparts hu).ok hlines
  exact ⟨s', by rw [hdrain, tokensAfter_items]⟩

namespace Session

/-- From every session that can be reached, the tokens up to the end are those of the text that is
    left, shifted to the place and the line that have been reached. -/
theorem drain_of_reached {s : Session} (h : Scannable source) (hs : Reached source s) :
    ∃ rest ts s', dropBytes? source.toList s.scanner.position = some rest ∧
      tokenize (String.ofList rest) = .ok ts ∧
      s.scanner.drain =
        .ok (ts.map (Token.shift s.scanner.position (s.scanner.line - 1)), s') := by
  obtain ⟨b, hb⟩ := exists_follows_of_reached h hs
  obtain ⟨r, hr⟩ := taken_isPrefix_self source.toList b.index
  have hcursor := hb.scanner.cursor_eq
  obtain ⟨s', hdrain⟩ := drain_after h hcursor hr.symm
  -- The place and the line are the size and the line feeds of what has been read.
  have hposition : s.scanner.position = byteSize (taken source.toList b.index) := by
    rw [position, hcursor, after_position]
  have hline : s.scanner.line - 1 = lineFeeds (taken source.toList b.index) := by
    rw [line, hcursor, after_line, Nat.add_sub_cancel_left]
  rw [hposition, hline]
  have hrest := dropBytes?_append (taken source.toList b.index) r
  rw [hr] at hrest
  exact ⟨r, _, s', hrest, tokenize_of_scannable (h.behind hr.symm), hdrain⟩

/-- A scan taken up on the second line, behind an error. -/
theorem drain_of_reached_error :
    ∃ s : Session, Scannable "\n@1." ∧ Reached "\n@1." s ∧
      s.scanner.position = 2 ∧ s.scanner.line = 2 ∧
      tokenize "1." =
        .ok [⟨.number, "1", 1, ⟨0, 1⟩⟩, ⟨.dot, ".", 1, ⟨1, 2⟩⟩, ⟨.eof, "", 1, ⟨2, 2⟩⟩] ∧
      ∃ s', s.scanner.drain =
        .ok ([⟨.number, "1", 2, ⟨2, 3⟩⟩, ⟨.dot, ".", 2, ⟨3, 4⟩⟩, ⟨.eof, "", 2, ⟨4, 4⟩⟩], s') := by
  have h : Scannable "\n@1." := ⟨by decide, by decide⟩
  -- The error is behind: what is left does not show that there was one.
  have hscan : (ofSource "\n@1.").step .scan =
      .ok (.token ⟨.error, "Unexpected character.", 2, ⟨1, 2⟩⟩,
        ⟨⟨⟨"\n@1.", 2, 2⟩, 1, 2⟩, .ofSource "\n@1."⟩) := by
    decide +kernel
  have hs := Reached.step .scan .start hscan
  obtain ⟨rest, ts, s', hrest, hts, hdrain⟩ := drain_of_reached h hs
  have hrest' : dropBytes? "\n@1.".toList 2 = some "1.".toList := by decide
  obtain rfl : "1.".toList = rest := Option.some.inj (hrest'.symm.trans hrest)
  have htokens : tokenize "1." =
      .ok [⟨.number, "1", 1, ⟨0, 1⟩⟩, ⟨.dot, ".", 1, ⟨1, 2⟩⟩, ⟨.eof, "", 1, ⟨2, 2⟩⟩] := by
    decide +kernel
  rw [String.ofList_toList, htokens, Except.ok.injEq] at hts
  subst hts
  exact ⟨_, h, hs, rfl, rfl, htokens, s', hdrain⟩

end Session

end Scanner

end Lexis

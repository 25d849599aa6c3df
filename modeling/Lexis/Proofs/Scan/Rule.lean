/-
  Lexis.Proofs.Scan.Rule

  Each rule of the scanner reads its piece.

  The rules look one or two characters ahead, where the end of the source reads as NUL; the pieces
  are taken from the text as it stands. They agree since no rule goes on at a NUL.
-/

import Lexis.Proofs.Scan.Piece
import Lexis.Proofs.Scan.Trivia
import Lexis.Scan.Scanner

namespace Lexis.Scanner

open Lexis.Text Lexis.Cursor

variable {source : String} {u v r : List Char}

/-- The piece `p` after `u` drawn as a token, if its lines keep to the limit. -/
def yield (source : String) (u : List Char) (p : Piece) : Except Fault (Token × Scanner) :=
  (reach source (u ++ p.text)).map fun c =>
    (p.token (1 + lineFeeds u) ⟨byteSize u, byteSize (u ++ p.text)⟩,
      ⟨c, byteSize u, 1 + lineFeeds u⟩)

/-- The scanner that has read `v` of a token which starts after `u`. -/
def within (source : String) (u v : List Char) : Scanner :=
  ⟨after source (u ++ v), byteSize u, 1 + lineFeeds u⟩

/-- Emitting yields the piece between the start and the cursor. -/
theorem emit_within (h : Parts source u (v ++ r)) (kind : Kind)
    (hv : lineFeeds (u ++ v) < maxLine) :
    (within source u v).emit kind = yield source u ⟨.ok kind, v⟩ := by
  unfold emit yield
  rw [reach_of_lt hv, Fault.map_ok]
  have hslice : (within source u v).cursor.sliceFrom (within source u v).start =
      .ok (String.ofList v) := sliceFrom_after h
  rw [hslice]
  rfl

theorem reject_within (e : LexicalError) (hv : lineFeeds (u ++ v) < maxLine) :
    (within source u v).reject e = yield source u ⟨.error e, v⟩ := by
  unfold reject yield
  rw [reach_of_lt hv]
  rfl

/-- Once a beginning `v` of a piece is read, the piece is what the rest of the rule draws. -/
theorem reach_bind_yield {p : Piece} {f : Cursor → Except Fault (Token × Scanner)}
    (hp : v <+: p.text)
    (hf : lineFeeds (u ++ v) < maxLine → f (after source (u ++ v)) = yield source u p) :
    reach source (u ++ v) >>= f = yield source u p := by
  obtain ⟨rest, hrest⟩ := hp
  unfold yield at hf ⊢
  rw [← hrest, ← List.append_assoc] at hf ⊢
  exact reach_bind_map hf

/-! ## Numbers -/

/-- A fraction is skipped exactly if a digit stands behind the point. -/
theorem skipFraction_after (h : Parts source u r) (hu : lineFeeds u < maxLine) :
    skipFraction (after source u) = reach source (u ++ Piece.fraction r) := by
  unfold skipFraction
  rw [current_after h, Fault.ok_bind]
  cases r with
  | nil => simp [Piece.fraction, endMark, reach_of_lt hu, pure, Except.pure]
  | cons x r =>
    rw [List.headD_cons]
    by_cases hx : x = '.'
    · subst hx
      rw [if_pos rfl, peek_one_after h, Fault.ok_bind]
      cases r with
      | nil =>
        -- The end of the source reads as NUL, which is no digit.
        rw [Piece.fraction_of_point (by simp), List.append_nil, reach_of_lt hu]
        rfl
      | cons d r =>
        rw [List.headD_cons]
        by_cases hd : isDigit d
        · rw [if_pos hd, Piece.fraction_of_digit hd]
          refine advance_bind_after (f := fun c => c.skipWhile isDigit _) h hu ?_
          intro hlt
          rw [skipWhile_after _ (h.read (v := ['.'])) hlt, ← List.append_cons]
        · rw [if_neg hd, Piece.fraction_of_point (by simpa using hd), List.append_nil,
            reach_of_lt hu]
          rfl
    · rw [if_neg hx, Piece.fraction_of_ne hx, List.append_nil, reach_of_lt hu]
      rfl

/-- The rule for numbers reads digits and the fraction behind them. -/
theorem number_within {x : Char} (h : Parts source u (x :: r))
    (hx : lineFeeds (u ++ [x]) < maxLine) :
    (within source u [x]).number = yield source u (Piece.number x r) := by
  have hwhole : (within source u [x]).cursor.skipWhile isDigit (by decide) =
      reach source (u ++ x :: r.takeWhile isDigit) := by
    rw [List.append_cons]
    exact skipWhile_after _ (h.read (v := [x])) hx
  have hfraction : Parts source (u ++ x :: r.takeWhile isDigit) (r.dropWhile isDigit) := by
    apply Parts.read
    simpa using h
  -- What the rule leaves over, so that the number can be sliced out of the source.
  obtain ⟨rest, hrest⟩ := Piece.isPrefix_fraction (r.dropWhile isDigit)
  have hall : Parts source u ((Piece.number x r).text ++ rest) := by
    simpa [Piece.number, hrest] using h
  unfold number
  rw [hwhole]
  apply reach_bind_yield
  · exact ⟨Piece.fraction (r.dropWhile isDigit), rfl⟩
  · intro hlt
    rw [skipFraction_after hfraction hlt]
    have htext : u ++ x :: r.takeWhile isDigit ++ Piece.fraction (r.dropWhile isDigit) =
        u ++ (Piece.number x r).text := by simp [Piece.number]
    rw [htext]
    refine reach_bind_yield ⟨[], List.append_nil _⟩ ?_
    intro hlt
    exact emit_within hall .number hlt

/-! ## Words -/

/-- The rule for words reads letters and digits and looks the word up. -/
theorem word_within {x : Char} (h : Parts source u (x :: r))
    (hx : lineFeeds (u ++ [x]) < maxLine) :
    (within source u [x]).word = yield source u (Piece.word x r) := by
  -- The loop stands behind the whole word, unless the line counter overflows on the way.
  have hrun : (within source u [x]).cursor.skipWhile isWordPart (by decide) =
      reach source (u ++ x :: r.takeWhile isWordPart) := by
    rw [List.append_cons]
    exact skipWhile_after _ (h.read (v := [x])) hx
  have hall : Parts source u (x :: r.takeWhile isWordPart ++ r.dropWhile isWordPart) := by
    simpa using h
  unfold word
  rw [hrun]
  refine reach_bind_yield ⟨[], List.append_nil _⟩ ?_
  -- From here on it has not, and the word is looked up in the slice.
  intro hlt
  have hslice : (after source (u ++ x :: r.takeWhile isWordPart)).sliceFrom (byteSize u) =
      .ok (String.ofList (x :: r.takeWhile isWordPart)) := sliceFrom_after hall
  have hstart : (within source u [x]).start = byteSize u := rfl
  rw [hstart, hslice, Fault.ok_bind]
  exact emit_within hall _ hlt

/-! ## Strings -/

/-- The rule for strings reads up to the closing quote, or to the end. -/
theorem string_within (h : Parts source u ('"' :: r)) (hx : lineFeeds (u ++ ['"']) < maxLine) :
    (within source u ['"']).string = yield source u (Piece.string r) := by
  have hrun : (within source u ['"']).cursor.skipUntil '"' =
      reach source (u ++ '"' :: r.takeWhile (· ≠ '"')) := by
    rw [List.append_cons]
    exact skipUntil_after '"' (h.read (v := ['"'])) hx
  have hrest : Parts source (u ++ '"' :: r.takeWhile (· ≠ '"')) (r.dropWhile (· ≠ '"')) := by
    apply Parts.read
    simpa using h
  unfold string
  rw [hrun]
  cases hdrop : r.dropWhile (· ≠ '"') with
  | nil =>
    -- No quote follows: the loop has gone to the end.
    have hall : r.takeWhile (· ≠ '"') = r := by
      have happend := List.takeWhile_append_dropWhile (p := (· ≠ '"')) (l := r)
      rwa [hdrop, List.append_nil] at happend
    rw [hdrop, hall] at hrest
    rw [hall, Piece.string_of_open hdrop]
    refine reach_bind_yield ⟨[], List.append_nil _⟩ ?_
    intro hlt
    rw [isAtEnd_after hrest, if_pos (by rfl)]
    exact reject_within .unterminatedString hlt
  | cons quote rest =>
    -- The loop has stopped before a quote, which is read as well.
    have hall : Parts source u ('"' :: (r.takeWhile (· ≠ '"') ++ [quote]) ++ rest) := by
      have happend := List.takeWhile_append_dropWhile (p := (· ≠ '"')) (l := r)
      rw [hdrop] at happend
      rw [List.cons_append, List.append_assoc, List.singleton_append, happend]
      exact h
    rw [hdrop] at hrest
    rw [Piece.string_of_closed hdrop]
    refine reach_bind_yield ⟨[quote], rfl⟩ ?_
    intro hlt
    rw [isAtEnd_after hrest, if_neg (by simp), advance_after hrest hlt, Fault.map_bind,
      List.append_assoc, List.cons_append]
    refine reach_bind_yield ⟨[], List.append_nil _⟩ ?_
    intro hlt
    exact emit_within hall .string hlt

/-! ## Symbols -/

/-- The rule for operators reads an equal sign with them where one stands. -/
theorem operator_within {x : Char} (alone withEqual : Kind) (h : Parts source u (x :: r))
    (hx : lineFeeds (u ++ [x]) < maxLine) :
    (within source u [x]).operator alone withEqual =
      yield source u (Piece.operator x alone withEqual r) := by
  have hcursor : (within source u [x]).cursor = after source (u ++ [x]) := rfl
  have hrest : Parts source (u ++ [x]) r := h.read (v := [x])
  unfold operator Piece.operator
  rw [hcursor]
  -- At the end of the text there is no equal sign to match.
  cases r with
  | nil =>
    rw [matchChar_after_nil hrest, Fault.ok_bind, if_neg (by simp)]
    exact emit_within (v := [x]) h alone hx
  | cons y r =>
    rw [matchChar_after hrest hx]
    by_cases hy : y = '='
    · subst hy
      rw [if_pos rfl, Fault.map_bind, List.append_assoc]
      refine reach_bind_yield ⟨[], List.append_nil _⟩ ?_
      intro hlt
      exact emit_within (v := [x, '=']) h withEqual hlt
    · rw [if_neg hy, if_neg (by simpa using hy), Fault.ok_bind]
      exact emit_within (v := [x]) h alone hx

/-- The rule that the first character chooses reads the first piece. -/
theorem rule_within {x : Char} (h : Parts source u (x :: r))
    (hx : lineFeeds (u ++ [x]) < maxLine) :
    (within source u [x]).rule x = yield source u (Piece.first x r) := by
  -- Rule and piece ask the same questions in the same order.
  unfold rule Piece.first
  by_cases hdigit : isDigit x
  · rw [if_pos hdigit, if_pos hdigit]
    exact number_within h hx
  · rw [if_neg hdigit, if_neg hdigit]
    by_cases hword : isWordStart x
    · rw [if_pos hword, if_pos hword]
      exact word_within h hx
    · rw [if_neg hword, if_neg hword]
      by_cases hquote : x = '"'
      · subst hquote
        rw [if_pos rfl, if_pos rfl]
        exact string_within h hx
      · rw [if_neg hquote, if_neg hquote]
        unfold Piece.symbol
        cases Symbol.operator? x with
        | some kinds => exact operator_within kinds.1 kinds.2 h hx
        | none =>
          cases Symbol.single? x with
          | some kind => exact emit_within (v := [x]) h kind hx
          | none => exact reject_within .unexpectedCharacter hx

/-- At a cursor that stands on no trivia the next token is the next piece. -/
theorem scanAt_after (h : Parts source u r) (hu : lineFeeds u < maxLine) :
    scanAt (after source u) = yield source u (Piece.next r) := by
  unfold scanAt
  -- The end of the text is a piece of its own, without characters.
  cases r with
  | nil =>
    rw [isAtEnd_after h, if_pos (by rfl)]
    have hend := emit_within (v := []) h .eof (by simpa using hu)
    rw [within, List.append_nil] at hend
    exact hend
  | cons x r =>
    rw [isAtEnd_after h, if_neg (by simp), advance_after h hu, Fault.map_bind]
    refine reach_bind_yield (Piece.isPrefix_cons_text_first x r) ?_
    intro hx
    exact rule_within h hx

/-- A scan passes over the leading trivia and then draws the next piece. -/
theorem scan_after {s : Scanner} (hs : s.cursor = after source u) (h : Parts source u r)
    (hu : lineFeeds u < maxLine) :
    s.scan = yield source (u ++ Trivia.leading false r) (Piece.next (Trivia.rest r)) := by
  have hparts : Parts source u (Trivia.leading false r ++ Trivia.rest r) := by
    rwa [Trivia.leading_append_rest]
  unfold scan
  rw [hs, skipTrivia_after h hu]
  unfold yield
  apply reach_bind_map
  intro hlt
  exact scanAt_after hparts.read hlt

end Lexis.Scanner

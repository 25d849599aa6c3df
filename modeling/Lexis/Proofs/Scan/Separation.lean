/-
  Lexis.Proofs.Scan.Separation

  A line feed keeps the tokens before it apart from those behind it.

  Before a line feed every token ends as it does at the end of a source, and so does a comment;
  only a string goes on. What is scanned behind it is scanned as if nothing stood before, so the
  tokens of two texts with a line feed between them are the tokens of the one and then those of the
  other, shifted.
-/

import Lexis.Proofs.Scan.Lookahead
import Lexis.Proofs.Scan.Resume

namespace Lexis

open Lexis.Text

/-! ## Trivia before a text -/

/-- Blanks before a text are read before its trivia. -/
theorem Trivia.leading_append_of_isBlank {gap : List Char} (h : ∀ c ∈ gap, isBlank c = true)
    (cs : List Char) : leading false (gap ++ cs) = gap ++ leading false cs := by
  induction gap with
  | nil => rfl
  | cons c gap ih =>
    obtain ⟨hc, hgap⟩ := List.forall_mem_cons.1 h
    rw [List.cons_append, leading_blank hc, ih hgap, List.cons_append]

/-- A line feed ends a comment, and is a blank of its own. -/
theorem Trivia.leading_append_lineFeed {gap : List Char} (h : leading false gap = gap)
    (cs : List Char) : leading false (gap ++ '\n' :: cs) = gap ++ '\n' :: leading false cs := by
  obtain ⟨inside, hinside⟩ := exists_leading_append h
  rw [hinside]
  cases inside with
  | false => rw [leading_blank (by decide)]
  | true => simp [leading]

namespace Item

variable {gap cs : List Char}

/-- Trivia before a text go to the gap of its first item. -/
theorem first_trivia_append
    (h : Trivia.leading false (gap ++ cs) = gap ++ Trivia.leading false cs) :
    first (gap ++ cs) = ⟨gap ++ (first cs).gap, (first cs).piece⟩ ∧
      rest (gap ++ cs) = rest cs := by
  -- Both texts are their trivia and the rest, so the rests are the same.
  have hbehind : Trivia.rest (gap ++ cs) = Trivia.rest cs := by
    have hall := Trivia.leading_append_rest (gap ++ cs)
    rw [h, List.append_assoc] at hall
    exact List.append_cancel_left
      ((List.append_cancel_left hall).trans (Trivia.leading_append_rest cs).symm)
  have hfirst : first (gap ++ cs) = ⟨gap ++ (first cs).gap, (first cs).piece⟩ := by
    rw [first, h, hbehind]
    rfl
  refine ⟨hfirst, ?_⟩
  have hall := piece_text_append_rest (gap ++ cs)
  rw [hfirst, hbehind, ← piece_text_append_rest cs] at hall
  exact List.append_cancel_left hall

/-- An item whose piece is no open string has no token that reports one. -/
theorem outcome_ne_of_error? {u : List Char}
    (h : ((first cs).token u).error? ≠ some .unterminatedString) :
    (first cs).piece.outcome ≠ .error .unterminatedString := by
  intro hopen
  apply h
  rw [token, first, Piece.error?_token_next]
  have hnext : (Piece.next (Trivia.rest cs)).outcome = .error .unterminatedString := hopen
  rw [hnext]

end Item

/-- Trivia before a text change its tokens only by the place where they stand. -/
theorem tokensAfter_trivia_append {gap cs : List Char}
    (h : Trivia.leading false (gap ++ cs) = gap ++ Trivia.leading false cs) (u : List Char) :
    tokensAfter u (items (gap ++ cs)) = tokensAfter (u ++ gap) (items cs) := by
  obtain ⟨hfirst, hrest⟩ := Item.first_trivia_append h
  have htext : u ++ (Item.first (gap ++ cs)).text = u ++ gap ++ (Item.first cs).text := by
    rw [hfirst, Item.text, Item.text, List.append_assoc, List.append_assoc]
  have htoken : (Item.first (gap ++ cs)).token u = (Item.first cs).token (u ++ gap) := by
    rw [Item.token, Item.token, htext, hfirst]
    simp only [List.append_assoc]
  -- The first items differ in their gaps only, which the text in front makes up for.
  by_cases hlast : (Item.first cs).piece.text = []
  · rw [items_of_last hlast, items_of_last (by rwa [hfirst]), tokensAfter, tokensAfter, htoken]
    rfl
  · rw [items_of_piece hlast, items_of_piece (by rwa [hfirst]), tokensAfter, tokensAfter, htoken,
      htext, hrest]

/-! ## A line feed between two texts -/

/-- Behind the tokens of a text without an open string, but for the end token, stand those of the
    text behind the line feed. -/
theorem exists_tokensAfter_lineFeed (u cs r : List Char)
    (h : ∀ t ∈ tokensAfter u (items cs), t.error? ≠ some .unterminatedString) :
    ∃ before eof, tokensAfter u (items cs) = before ++ [eof] ∧ eof.isEof = true ∧
      tokensAfter u (items (cs ++ '\n' :: r)) =
        before ++ tokensAfter (u ++ (cs ++ ['\n'])) (items r) := by
  induction cs using items_induction generalizing u with
  | last cs hlast =>
    -- All of the text is trivia, which the line feed goes on with.
    have hleading := Item.piece_first_eq_nil.1 hlast
    have happend : Trivia.leading false ((cs ++ ['\n']) ++ r) =
        (cs ++ ['\n']) ++ Trivia.leading false r := by
      simpa using Trivia.leading_append_lineFeed hleading r
    refine ⟨[], (Item.first cs).token u, ?_, Item.isEof_token_first.2 hlast, ?_⟩
    · rw [items_of_last hlast]
      rfl
    · rw [List.append_cons, tokensAfter_trivia_append happend, List.nil_append]
  | piece cs hpiece ih =>
    rw [items_of_piece hpiece, tokensAfter, List.forall_mem_cons] at h
    obtain ⟨before, eof, hts, heof, hboth⟩ := ih _ h.2
    have hcs := Item.text_append_rest cs
    refine ⟨(Item.first cs).token u :: before, eof, ?_, heof, ?_⟩
    · rw [items_of_piece hpiece, tokensAfter, hts, List.cons_append]
    · -- The first item ends before the line feed as it did, and the others stand behind it.
      have hstops : StopsAs (Item.rest cs ++ '\n' :: r) (Item.rest cs) :=
        .append_blank (by decide) _ _
      have hitems := items_append hstops hpiece (Item.outcome_ne_of_error? h.1)
      have htext : u ++ (Item.first cs).text ++ (Item.rest cs ++ ['\n']) = u ++ (cs ++ ['\n']) := by
        conv_rhs => rw [← hcs]
        simp only [List.append_assoc]
      rw [← List.append_assoc, hcs] at hitems
      rw [hitems, tokensAfter, hboth, htext, List.cons_append]

/-- Behind a line feed the tokens are those of the second text, moved. -/
theorem tokens_lineFeed {a b : String}
    (h : ∀ t ∈ tokens a, t.error? ≠ some .unterminatedString) :
    ∃ before eof, tokens a = before ++ [eof] ∧ eof.isEof = true ∧
      tokens (a ++ "\n" ++ b) =
        before ++ (tokens b).map (Token.shift (a.utf8ByteSize + 1) (1 + lineFeeds a.toList)) := by
  obtain ⟨before, eof, hts, heof, hboth⟩ := exists_tokensAfter_lineFeed [] a.toList b.toList h
  -- The line feed counts as one byte and one line of the text in front.
  have hsource : (a ++ "\n" ++ b).toList = a.toList ++ '\n' :: b.toList := by simp
  have hsize : byteSize (a.toList ++ ['\n']) = a.utf8ByteSize + 1 := by
    rw [byteSize_append, byteSize_toList]
    rfl
  have hlines : lineFeeds (a.toList ++ ['\n']) = 1 + lineFeeds a.toList := by
    rw [lineFeeds_append, Nat.add_comm]
    rfl
  refine ⟨before, eof, hts, heof, ?_⟩
  rw [tokens, hsource, hboth, List.nil_append, tokensAfter_items, String.ofList_toList, hsize,
    hlines]

/-- The tokens of two texts with a line feed between them are those of the first without its end
    token, and then those of the second, shifted to where it stands; but the first must not end
    inside a string. -/
theorem tokenize_lineFeed {a b : String} (h : Scannable (a ++ "\n" ++ b))
    (hclosed : ∀ ts, tokenize a = .ok ts → ∀ t ∈ ts, t.error? ≠ some .unterminatedString) :
    ∃ before eof ts, tokenize a = .ok (before ++ [eof]) ∧ eof.isEof = true ∧
      tokenize b = .ok ts ∧
      tokenize (a ++ "\n" ++ b) = .ok (before ++
        ts.map (Token.shift (a.utf8ByteSize + 1) (1 + lineFeeds a.toList))) := by
  have ha : tokenize a = .ok (tokens a) := by
    apply tokenize_of_scannable
    exact h.part (u := []) (r := '\n' :: b.toList) (by simp)
  have hb : tokenize b = .ok (tokens b) := by
    apply tokenize_of_scannable
    exact h.part (u := a.toList ++ ['\n']) (r := []) (by simp)
  obtain ⟨before, eof, hts, heof, hboth⟩ := tokens_lineFeed (b := b) (hclosed _ ha)
  rw [hts] at ha
  exact ⟨before, eof, tokens b, ha, heof, hb, by rw [tokenize_of_scannable h, hboth]⟩

/-- Two slashes with a line feed between them start no comment. -/
theorem tokenize_lineFeed_slash :
    Scannable ("3./" ++ "\n" ++ "/5") ∧
      tokenize "3./" = .ok [⟨.number, "3", 1, ⟨0, 1⟩⟩, ⟨.dot, ".", 1, ⟨1, 2⟩⟩,
        ⟨.slash, "/", 1, ⟨2, 3⟩⟩, ⟨.eof, "", 1, ⟨3, 3⟩⟩] ∧
      tokenize "/5" =
        .ok [⟨.slash, "/", 1, ⟨0, 1⟩⟩, ⟨.number, "5", 1, ⟨1, 2⟩⟩, ⟨.eof, "", 1, ⟨2, 2⟩⟩] ∧
      tokenize ("3./" ++ "\n" ++ "/5") =
        .ok [⟨.number, "3", 1, ⟨0, 1⟩⟩, ⟨.dot, ".", 1, ⟨1, 2⟩⟩, ⟨.slash, "/", 1, ⟨2, 3⟩⟩,
          ⟨.slash, "/", 2, ⟨4, 5⟩⟩, ⟨.number, "5", 2, ⟨5, 6⟩⟩, ⟨.eof, "", 2, ⟨6, 6⟩⟩] := by
  have h : Scannable ("3./" ++ "\n" ++ "/5") := ⟨by decide, by decide⟩
  have hleft : tokenize "3./" = .ok [⟨.number, "3", 1, ⟨0, 1⟩⟩, ⟨.dot, ".", 1, ⟨1, 2⟩⟩,
      ⟨.slash, "/", 1, ⟨2, 3⟩⟩, ⟨.eof, "", 1, ⟨3, 3⟩⟩] := by
    decide +kernel
  have hright : tokenize "/5" =
      .ok [⟨.slash, "/", 1, ⟨0, 1⟩⟩, ⟨.number, "5", 1, ⟨1, 2⟩⟩, ⟨.eof, "", 1, ⟨2, 2⟩⟩] := by
    decide +kernel
  have hclosed : ∀ ts, tokenize "3./" = .ok ts → ∀ t ∈ ts, t.error? ≠ some .unterminatedString := by
    intro ts hts
    rw [hleft, Except.ok.injEq] at hts
    subst hts
    decide
  obtain ⟨before, eof, ts, hbefore, -, hts, hboth⟩ := tokenize_lineFeed h hclosed
  rw [hright, Except.ok.injEq] at hts
  subst hts
  rw [hleft, Except.ok.injEq] at hbefore
  have hfront := congrArg List.dropLast hbefore
  rw [List.dropLast_concat] at hfront
  subst hfront
  exact ⟨h, hleft, hright, hboth⟩

end Lexis

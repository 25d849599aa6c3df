/-
  Lexis.Proofs.Scan.Reprint

  Tokens written out and scanned again.

  The texts of the tokens of a source with blanks between them are a source of the same tokens: a
  blank ends a piece as what stood behind it did, and belongs to the gap of the next one. Of all
  pieces only a string without an end would take a blank in, and that is the last one, so nothing
  is written behind it.
-/

import Lexis.Proofs.Scan.Separation
import Lexis.Proofs.Scan.Tiling

namespace Lexis

open Lexis.Text

/-- Texts with separators between them. -/
def interleave (texts seps : List String) : String :=
  String.join (List.zipWith (· ++ ·) texts (seps ++ [""]))

/-- A text that keeps tokens apart: one or more blanks. -/
structure IsSeparator (sep : String) : Prop where
  ne_empty : sep ≠ ""
  blank : ∀ c ∈ sep.toList, c ∈ [' ', '\t', '\r', '\n']

theorem interleave_nil : interleave [] [] = "" := rfl

theorem interleave_singleton (w : String) : interleave [w] [] = w := by
  simp [interleave]

theorem interleave_cons_cons (w sep : String) (ws seps : List String) :
    interleave (w :: ws) (sep :: seps) = w ++ sep ++ interleave ws seps := by
  simp [interleave]

namespace IsSeparator

variable {sep : String}

theorem isBlank (h : IsSeparator sep) : ∀ c ∈ sep.toList, isBlank c = true := by
  intro c hc
  have hclass := h.blank c hc
  simp only [List.mem_cons, List.not_mem_nil, or_false] at hclass
  rcases hclass with rfl | rfl | rfl | rfl <;> rfl

/-- Whatever stands behind it, a separator ends every piece. -/
theorem stopsAs (h : IsSeparator sep) (r s : List Char) : StopsAs (sep.toList ++ r) s := by
  have hne : sep.toList ≠ [] := by simpa using h.ne_empty
  obtain ⟨c, cs, hsep⟩ := List.exists_cons_of_ne_nil hne
  have hc : Text.isBlank c = true := h.isBlank c (by rw [hsep]; exact List.mem_cons_self)
  apply StopsAs.of_isBlank_head
  intro x hx
  rw [hsep, List.cons_append, List.head?_cons] at hx
  rwa [← Option.some.inj hx]

end IsSeparator

/-! ## The pieces of a text -/

/-- The pieces of a text, that of the end token last. -/
def pieces (cs : List Char) : List Piece :=
  (items cs).map Item.piece

/-- The texts of the pieces of a text, without that of the end token. -/
def pieceTexts (cs : List Char) : List String :=
  (pieces cs).dropLast.map fun p => String.ofList p.text

variable {cs gap : List Char}

theorem pieces_of_last (h : (Item.first cs).piece.text = []) : pieces cs = [Piece.next []] := by
  have hrest : Trivia.rest cs = [] := Piece.text_next_eq_nil.1 h
  rw [pieces, items_of_last h, List.map_singleton, Item.first, hrest]

theorem pieces_of_piece (h : (Item.first cs).piece.text ≠ []) :
    pieces cs = (Item.first cs).piece :: pieces (Item.rest cs) := by
  rw [pieces, items_of_piece h, List.map_cons, pieces]

theorem pieces_ne_nil (cs : List Char) : pieces cs ≠ [] := by
  have hpos := length_items_pos cs
  intro hnil
  rw [pieces, List.map_eq_nil_iff] at hnil
  rw [hnil] at hpos
  exact absurd hpos (by decide)

theorem pieceTexts_of_last (h : (Item.first cs).piece.text = []) : pieceTexts cs = [] := by
  rw [pieceTexts, pieces_of_last h]
  rfl

theorem pieceTexts_of_piece (h : (Item.first cs).piece.text ≠ []) :
    pieceTexts cs = String.ofList (Item.first cs).piece.text :: pieceTexts (Item.rest cs) := by
  rw [pieceTexts, pieces_of_piece h, List.dropLast_cons_of_ne_nil (pieces_ne_nil _), List.map_cons,
    pieceTexts]

/-- Only trivia are left where no piece but that of the end token is. -/
theorem pieces_of_pieceTexts_eq_nil (h : pieceTexts cs = []) : pieces cs = [Piece.next []] := by
  by_cases hlast : (Item.first cs).piece.text = []
  · exact pieces_of_last hlast
  · rw [pieceTexts_of_piece hlast] at h
    cases h

/-- Trivia before a text are no piece. -/
theorem pieces_trivia_append
    (h : Trivia.leading false (gap ++ cs) = gap ++ Trivia.leading false cs) :
    pieces (gap ++ cs) = pieces cs := by
  obtain ⟨hfirst, hrest⟩ := Item.first_trivia_append h
  have hpiece : (Item.first (gap ++ cs)).piece = (Item.first cs).piece := by rw [hfirst]
  by_cases hlast : (Item.first cs).piece.text = []
  · rw [pieces_of_last hlast, pieces_of_last (by rwa [hpiece])]
  · rw [pieces_of_piece hlast, pieces_of_piece (by rwa [hpiece]), hpiece, hrest]

/-- The pieces of a text, written with separators between them, are the pieces of what is
    written. -/
theorem pieces_interleave (cs : List Char) {seps : List String}
    (hlength : seps.length = (pieceTexts cs).length - 1) (hseps : ∀ sep ∈ seps, IsSeparator sep) :
    pieces (interleave (pieceTexts cs) seps).toList = pieces cs := by
  induction cs using items_induction generalizing seps with
  | last cs h =>
    -- Nothing is written.
    rw [pieceTexts_of_last h] at hlength ⊢
    obtain rfl : seps = [] := List.length_eq_zero_iff.1 hlength
    rw [interleave_nil, pieces_of_last h]
    exact pieces_of_last rfl
  | piece cs h ih =>
    rw [pieceTexts_of_piece h] at hlength ⊢
    rw [pieces_of_piece h]
    cases seps with
    | nil =>
      -- The last piece, behind which nothing is written.
      have hnil : pieceTexts (Item.rest cs) = [] := by
        rw [List.length_nil, List.length_cons, Nat.add_sub_cancel] at hlength
        exact List.length_eq_zero_iff.1 hlength.symm
      have hitems := items_piece_append (r := []) (.of_isBlank_head (by simp) _) h fun _ => rfl
      rw [List.append_nil] at hitems
      rw [hnil, interleave_singleton, String.toList_ofList, pieces_of_pieceTexts_eq_nil hnil,
        pieces, hitems, List.map_cons]
      exact congrArg _ (pieces_of_last rfl)
    | cons sep seps =>
      obtain ⟨hsep, hseps⟩ := List.forall_mem_cons.1 hseps
      have hrest : seps.length = (pieceTexts (Item.rest cs)).length - 1 := by
        simp only [List.length_cons] at hlength
        omega
      have hwritten : (interleave (String.ofList (Item.first cs).piece.text ::
          pieceTexts (Item.rest cs)) (sep :: seps)).toList =
          (Item.first cs).piece.text ++
            (sep.toList ++ (interleave (pieceTexts (Item.rest cs)) seps).toList) := by
        rw [interleave_cons_cons, String.toList_append, String.toList_append,
          String.toList_ofList, List.append_assoc]
      -- There is a piece behind this one, which is therefore no open string.
      have hclosed : (Item.first cs).piece.outcome ≠ .error .unterminatedString := by
        apply Item.outcome_ne_unterminated
        intro hbehind
        have hnil : pieceTexts [] = [] := pieceTexts_of_last rfl
        rw [hbehind, hnil] at hlength
        cases hlength
      rw [hwritten, pieces,
        items_piece_append (hsep.stopsAs _ _) h fun hopen => absurd hopen hclosed, List.map_cons]
      have hblank := pieces_trivia_append (Trivia.leading_append_of_isBlank hsep.isBlank
        (interleave (pieceTexts (Item.rest cs)) seps).toList)
      rw [pieces, ih hrest hseps] at hblank
      exact congrArg _ hblank

/-! ## The tokens of pieces -/

/-- The spans of the tokens but the end token name the texts of the pieces. -/
theorem slices_filter_not_isEof (source : String) :
    ((tokens source).filter (!·.isEof)).map (·.span.slice? source) =
      (pieceTexts source.toList).map some := by
  have hitems : source.toList = [] ++ (items source.toList).flatMap Item.text := by
    rw [flatMap_text_items, List.nil_append]
  have hslices := slices_spans hitems
  rw [tokens, filter_not_isEof_tokensAfter, List.map_dropLast, hslices, pieceTexts, pieces]
  simp only [List.map_dropLast, List.map_map]
  rfl

/-- The labels of the tokens are those of the pieces. -/
theorem labels_tokens (source : String) :
    ((tokens source).map fun t => (t.kind, t.lexeme)) =
      (pieces source.toList).map Piece.label := by
  rw [tokens, map_label_tokensAfter, pieces, List.map_map]
  rfl

/-- There is a token for each piece, and one for the end. -/
theorem length_tokens_pieceTexts (source : String) :
    (tokens source).length = (pieceTexts source.toList).length + 1 := by
  have hpos := length_items_pos source.toList
  rw [length_tokens, pieceTexts, List.length_map, List.length_dropLast, pieces, List.length_map]
  omega

/-- The texts of the tokens of a source, with any separators between them, are scanned as tokens of
    the same kinds and lexemes over the same texts. -/
theorem tokenize_interleave {source : String} (h : Scannable source) :
    ∃ ts texts, tokenize source = .ok ts ∧
      (ts.filter (!·.isEof)).map (·.span.slice? source) = texts.map some ∧
      ∀ seps : List String, seps.length = texts.length - 1 → (∀ sep ∈ seps, IsSeparator sep) →
        Scannable (interleave texts seps) →
        ∃ ts', tokenize (interleave texts seps) = .ok ts' ∧ ts'.length = texts.length + 1 ∧
          (ts'.map fun t => (t.kind, t.lexeme)) = (ts.map fun t => (t.kind, t.lexeme)) ∧
          (ts'.filter (!·.isEof)).map (·.span.slice? (interleave texts seps)) =
            texts.map some := by
  refine ⟨tokens source, pieceTexts source.toList, tokenize_of_scannable h,
    slices_filter_not_isEof source, ?_⟩
  intro seps hlength hseps hwritten
  have hpieces := pieces_interleave source.toList hlength hseps
  have htexts : pieceTexts (interleave (pieceTexts source.toList) seps).toList =
      pieceTexts source.toList := by
    rw [pieceTexts, hpieces, ← pieceTexts]
  refine ⟨_, tokenize_of_scannable hwritten, ?_, ?_, ?_⟩
  · rw [length_tokens_pieceTexts, htexts]
  · rw [labels_tokens, labels_tokens, hpieces]
  · rw [slices_filter_not_isEof, htexts]

/-- A string without an end is written last, and the lone point before it stays a point. -/
theorem tokenize_interleave_open :
    Scannable "1.@\"b\n" ∧
      tokenize "1.@\"b\n" = .ok [⟨.number, "1", 1, ⟨0, 1⟩⟩, ⟨.dot, ".", 1, ⟨1, 2⟩⟩,
        ⟨.error, "Unexpected character.", 1, ⟨2, 3⟩⟩,
        ⟨.error, "Unterminated string.", 1, ⟨3, 6⟩⟩, ⟨.eof, "", 2, ⟨6, 6⟩⟩] ∧
      (∀ sep ∈ [" ", "\t\r", "\n"], IsSeparator sep) ∧
      Scannable (interleave ["1", ".", "@", "\"b\n"] [" ", "\t\r", "\n"]) ∧
      ∃ ts', tokenize (interleave ["1", ".", "@", "\"b\n"] [" ", "\t\r", "\n"]) = .ok ts' ∧
        ts'.length = 5 ∧
        (ts'.map fun t => (t.kind, t.lexeme)) = [(.number, "1"), (.dot, "."),
          (.error, "Unexpected character."), (.error, "Unterminated string."), (.eof, "")] ∧
        (ts'.filter (!·.isEof)).map
            (·.span.slice? (interleave ["1", ".", "@", "\"b\n"] [" ", "\t\r", "\n"])) =
          [some "1", some ".", some "@", some "\"b\n"] := by
  have h : Scannable "1.@\"b\n" := ⟨by decide, by decide⟩
  have htokens : tokenize "1.@\"b\n" = .ok [⟨.number, "1", 1, ⟨0, 1⟩⟩, ⟨.dot, ".", 1, ⟨1, 2⟩⟩,
      ⟨.error, "Unexpected character.", 1, ⟨2, 3⟩⟩,
      ⟨.error, "Unterminated string.", 1, ⟨3, 6⟩⟩, ⟨.eof, "", 2, ⟨6, 6⟩⟩] := by
    decide +kernel
  have hseps : ∀ sep ∈ [" ", "\t\r", "\n"], IsSeparator sep := by
    intro sep hsep
    constructor
    · rintro rfl
      exact absurd hsep (by decide)
    · simp only [List.mem_cons, List.not_mem_nil, or_false] at hsep
      rcases hsep with rfl | rfl | rfl <;> simp
  have hwritten : Scannable (interleave ["1", ".", "@", "\"b\n"] [" ", "\t\r", "\n"]) :=
    ⟨by decide +kernel, by decide +kernel⟩
  obtain ⟨ts, texts, hts, htexts, hall⟩ := tokenize_interleave h
  rw [htokens, Except.ok.injEq] at hts
  subst hts
  -- The texts are those that the spans name.
  have hspans : (["1", ".", "@", "\"b\n"] : List String).map some = texts.map some := by
    rw [← htexts]
    decide +kernel
  obtain rfl : ["1", ".", "@", "\"b\n"] = texts :=
    List.map_injective_iff.2 (Option.some_injective _) hspans
  exact ⟨h, htokens, hseps, hwritten, hall _ rfl hseps hwritten⟩

end Lexis

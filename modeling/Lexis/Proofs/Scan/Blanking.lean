/-
  Lexis.Proofs.Scan.Blanking

  Blanking out what is no token.

  Comments and unexpected characters may be overwritten with spaces: the tokens around them stay
  the same, with their lines and spans. As many spaces are written as bytes are taken away and line
  feeds are left in place, so nothing moves; and the blanked text ends every piece that the text
  itself ends, so nothing merges.
-/

import Lexis.Proofs.Scan.Separation
import Lexis.Proofs.Scan.Tiling

namespace Lexis

open Lexis.Text

/-- Whether a span reaches over the byte at an offset. -/
def Span.covers (s : Span) (offset : Nat) : Bool :=
  s.start ≤ offset && offset < s.stop

/-- Whether a token reports a character that starts no token. -/
def Token.isUnexpected (t : Token) : Bool :=
  t.error? = some .unexpectedCharacter

/-- Whether what stands at an offset is blanked out: it is in the span of no token, or in that of a
    token that reports an unexpected character. -/
def isBlanked (ts : List Token) (offset : Nat) : Bool :=
  !ts.any (·.span.covers offset) || ts.any fun t => t.isUnexpected && t.span.covers offset

/-- A text that stands at an offset, with spaces for the characters that are blanked out, as many
    as each has bytes. Line feeds stay. -/
def blankOut (ts : List Token) : Nat → List Char → List Char
  | _, [] => []
  | offset, c :: cs =>
    (if c ≠ '\n' ∧ isBlanked ts offset = true then List.replicate c.utf8Size ' ' else [c]) ++
      blankOut ts (offset + c.utf8Size) cs

/-- A source with all blanked out that is none of its tokens `ts`. -/
def blanked (source : String) (ts : List Token) : String :=
  String.ofList (blankOut ts 0 source.toList)

variable {ts : List Token} {u v cs : List Char} {offset : Nat}

/-! ## Blanking moves nothing -/

theorem byteSize_replicate_space (n : Nat) : byteSize (List.replicate n ' ') = n := by
  have hone : ' '.utf8Size = 1 := rfl
  induction n with
  | zero => rfl
  | succ n ih =>
    rw [List.replicate_succ, byteSize_cons, ih, hone, Nat.add_comm]

@[simp] theorem byteSize_blankOut (ts : List Token) (offset : Nat) (cs : List Char) :
    byteSize (blankOut ts offset cs) = byteSize cs := by
  induction cs generalizing offset with
  | nil => rfl
  | cons c cs ih =>
    rw [blankOut, byteSize_append, ih, byteSize_cons]
    split
    · rw [byteSize_replicate_space]
    · simp

@[simp] theorem lineFeeds_blankOut (ts : List Token) (offset : Nat) (cs : List Char) :
    lineFeeds (blankOut ts offset cs) = lineFeeds cs := by
  induction cs generalizing offset with
  | nil => rfl
  | cons c cs ih =>
    rw [blankOut, lineFeeds_append, ih, lineFeeds_cons, Nat.add_comm]
    congr 1
    split
    next h =>
      -- A line feed is never blanked out.
      have hspaces : lineFeeds (List.replicate c.utf8Size ' ') = 0 := by
        simp [lineFeeds, List.count_replicate]
      rw [hspaces, if_neg h.1]
    · rw [lineFeeds_cons, lineFeeds_nil, Nat.zero_add]

theorem blankOut_append (ts : List Token) (offset : Nat) (a b : List Char) :
    blankOut ts offset (a ++ b) = blankOut ts offset a ++ blankOut ts (offset + byteSize a) b := by
  induction a generalizing offset with
  | nil => rfl
  | cons c a ih =>
    rw [List.cons_append, blankOut, blankOut, ih, byteSize_cons, List.append_assoc, Nat.add_assoc]

/-- A text all kept stays as it is. -/
theorem blankOut_of_kept
    (h : ∀ i, offset ≤ i → i < offset + byteSize cs → isBlanked ts i = false) :
    blankOut ts offset cs = cs := by
  induction cs generalizing offset with
  | nil => rfl
  | cons c cs ih =>
    rw [byteSize_cons] at h
    have hsize : 0 < c.utf8Size := Char.utf8Size_pos c
    have hc : isBlanked ts offset = false := h offset (Nat.le_refl _) (by omega)
    have hcs : blankOut ts (offset + c.utf8Size) cs = cs := by
      apply ih
      intro i hlow hhigh
      exact h i (by omega) (by omega)
    rw [blankOut, hcs, hc, if_neg (by simp), List.singleton_append]

/-- A text all blanked out is blanks. -/
theorem isBlank_of_mem_blankOut
    (h : ∀ i, offset ≤ i → i < offset + byteSize cs → isBlanked ts i = true) :
    ∀ x ∈ blankOut ts offset cs, isBlank x = true := by
  induction cs generalizing offset with
  | nil => simp [blankOut]
  | cons c cs ih =>
    rw [byteSize_cons] at h
    have hsize : 0 < c.utf8Size := Char.utf8Size_pos c
    have hc : isBlanked ts offset = true := h offset (Nat.le_refl _) (by omega)
    have hcs : ∀ x ∈ blankOut ts (offset + c.utf8Size) cs, isBlank x = true := by
      apply ih
      intro i hlow hhigh
      exact h i (by omega) (by omega)
    intro x hx
    rw [blankOut, List.mem_append] at hx
    -- The spaces that were put for a character, or the line feed that was kept.
    rcases hx with hx | hx
    · split at hx
      next =>
        rw [List.eq_of_mem_replicate hx]
        decide
      next hkept =>
        have hfeed : c = '\n' := by
          by_contra hne
          exact hkept ⟨hne, hc⟩
        rw [List.mem_singleton.1 hx, hfeed]
        decide
    · exact hcs x hx

/-! ## Blanking merges nothing -/

/-- At its front a blanked text has the same character or a space. -/
theorem blankOut_cons (ts : List Token) (offset : Nat) (c : Char) (cs : List Char) :
    blankOut ts offset (c :: cs) = c :: blankOut ts (offset + c.utf8Size) cs ∨
      ∃ r, blankOut ts offset (c :: cs) = ' ' :: r := by
  rw [blankOut]
  split
  · obtain ⟨n, hn⟩ : ∃ n, c.utf8Size = n + 1 :=
      ⟨_, (Nat.succ_pred_eq_of_pos (Char.utf8Size_pos c)).symm⟩
    right
    rw [hn, List.replicate_succ, List.cons_append]
    exact ⟨_, rfl⟩
  · exact .inl rfl

/-- A blanked text ends every piece that the text itself ends. -/
theorem stopsAs_blankOut (ts : List Token) (offset : Nat) (cs : List Char) :
    StopsAs (blankOut ts offset cs) cs := by
  cases cs with
  | nil => exact ⟨.inl rfl, id⟩
  | cons c cs =>
    rcases blankOut_cons ts offset c cs with heq | ⟨r, heq⟩
    · refine ⟨.inl (by rw [heq]; rfl), ?_⟩
      rw [heq, Piece.fraction_ne_nil, Piece.fraction_ne_nil]
      rintro ⟨d, ds, hfraction, hd⟩
      obtain ⟨rfl, hbehind⟩ := List.cons.inj hfraction
      -- The digit behind the point is no space, so it is there in the text itself.
      cases cs with
      | nil => cases hbehind
      | cons x cs =>
        rcases blankOut_cons ts (offset + '.'.utf8Size) x cs with hx | ⟨r, hx⟩
        · rw [hx] at hbehind
          obtain ⟨rfl, -⟩ := List.cons.inj hbehind
          exact ⟨x, cs, rfl, hd⟩
        · rw [hx] at hbehind
          rw [← (List.cons.inj hbehind).1] at hd
          exact absurd hd (by decide)
    · apply StopsAs.of_isBlank_head
      intro x hx
      rw [heq, List.head?_cons] at hx
      rw [← Option.some.inj hx]
      decide

/-! ## What is blanked out of an item -/

/-- The tokens `ts` of a source end with those of the text `cs` that stands after `u`, and the
    others reach no further than `u`. -/
def TokensBehind (ts : List Token) (u cs : List Char) : Prop :=
  ∃ before, ts = before ++ tokensAfter u (items cs) ∧ ∀ t ∈ before, t.span.stop ≤ byteSize u

namespace TokensBehind

/-- At the beginning all tokens are behind. -/
theorem start (source : String) : TokensBehind (tokens source) [] source.toList :=
  ⟨[], rfl, by simp⟩

/-- Past one item the tokens behind are those of the rest. -/
theorem rest (h : TokensBehind ts u cs) (hpiece : (Item.first cs).piece.text ≠ []) :
    TokensBehind ts (u ++ (Item.first cs).text) (Item.rest cs) := by
  obtain ⟨before, rfl, hbefore⟩ := h
  refine ⟨before ++ [(Item.first cs).token u], ?_, ?_⟩
  · rw [items_of_piece hpiece, tokensAfter, List.append_assoc, List.singleton_append]
  · intro t ht
    rcases List.mem_append.1 ht with ht | ht
    · have hstop := hbefore t ht
      rw [byteSize_append]
      omega
    · rw [List.mem_singleton.1 ht, Item.span_token]

/-- No token but that of the first item covers what stands in that item. -/
theorem any_covers (h : TokensBehind ts u cs) (p : Token → Bool) (hlow : byteSize u ≤ offset)
    (hhigh : offset < byteSize (u ++ (Item.first cs).text)) :
    ts.any (fun t => p t && t.span.covers offset) =
      (p ((Item.first cs).token u) && ((Item.first cs).token u).span.covers offset) := by
  obtain ⟨before, rfl, hbefore⟩ := h
  obtain ⟨its, hitems⟩ := exists_items_eq_cons cs
  -- Tokens in front of the item end before the offset, those behind it begin after it.
  have hleft : before.any (fun t => p t && t.span.covers offset) = false := by
    rw [List.any_eq_false]
    intro t ht
    have hstop := hbefore t ht
    simp only [Span.covers, Bool.and_eq_true, decide_eq_true_eq]
    omega
  have hright : (tokensAfter (u ++ (Item.first cs).text) its).any
      (fun t => p t && t.span.covers offset) = false := by
    rw [List.any_eq_false]
    intro t ht
    have hstart := le_start_of_mem_tokensAfter ht
    simp only [Span.covers, Bool.and_eq_true, decide_eq_true_eq]
    omega
  rw [hitems, tokensAfter, List.any_append, hleft, List.any_cons, hright, Bool.false_or,
    Bool.or_false]

/-- What decides about a character of an item is that item's token alone. -/
theorem isBlanked_eq (h : TokensBehind ts u cs) (hlow : byteSize u ≤ offset)
    (hhigh : offset < byteSize (u ++ (Item.first cs).text)) :
    isBlanked ts offset = (!((Item.first cs).token u).span.covers offset ||
      ((Item.first cs).token u).isUnexpected) := by
  have hany := h.any_covers (fun _ => true) hlow hhigh
  have hunexpected := h.any_covers Token.isUnexpected hlow hhigh
  simp only [Bool.true_and] at hany
  rw [isBlanked, hany, hunexpected]
  cases ((Item.first cs).token u).span.covers offset <;> simp

/-- The gap of the first item is blanked out. -/
theorem isBlank_of_mem_gap (h : TokensBehind ts u cs) :
    ∀ x ∈ blankOut ts (byteSize u) (Item.first cs).gap, isBlank x = true := by
  apply isBlank_of_mem_blankOut
  intro i hlow hhigh
  have htext : byteSize (u ++ (Item.first cs).text) =
      byteSize u + byteSize (Item.first cs).gap + byteSize (Item.first cs).piece.text := by
    rw [Item.text, byteSize_append, byteSize_append, Nat.add_assoc]
  -- The span of the token begins behind its gap.
  have hcovers : ((Item.first cs).token u).span.covers i = false := by
    rw [Item.span_token, Span.covers, Bool.and_eq_false_iff, decide_eq_false_iff_not,
      byteSize_append]
    exact .inl (Nat.not_le.2 hhigh)
  rw [h.isBlanked_eq hlow (by omega), hcovers]
  rfl

/-- All of the first item is blanked out if its piece is an unexpected character. -/
theorem isBlank_of_mem_text (h : TokensBehind ts u cs)
    (hunexpected : ((Item.first cs).token u).isUnexpected = true) :
    ∀ x ∈ blankOut ts (byteSize u) (Item.first cs).text, isBlank x = true := by
  apply isBlank_of_mem_blankOut
  intro i hlow hhigh
  rw [h.isBlanked_eq hlow (by rwa [byteSize_append]), hunexpected, Bool.or_true]

/-- Every other piece stays as it is. -/
theorem blankOut_piece (h : TokensBehind ts u cs)
    (hkept : ((Item.first cs).token u).isUnexpected = false) :
    blankOut ts (byteSize u + byteSize (Item.first cs).gap) (Item.first cs).piece.text =
      (Item.first cs).piece.text := by
  apply blankOut_of_kept
  intro i hlow hhigh
  have htext : byteSize (u ++ (Item.first cs).text) =
      byteSize u + byteSize (Item.first cs).gap + byteSize (Item.first cs).piece.text := by
    rw [Item.text, byteSize_append, byteSize_append, Nat.add_assoc]
  -- The span of the token covers its piece.
  have hcovers : ((Item.first cs).token u).span.covers i = true := by
    rw [Item.span_token, Span.covers, Bool.and_eq_true, decide_eq_true_eq, decide_eq_true_eq,
      htext, byteSize_append]
    exact ⟨hlow, hhigh⟩
  rw [h.isBlanked_eq (by omega) (by omega), hcovers, hkept]
  rfl

end TokensBehind

/-! ## The tokens of a blanked text -/

/-- Two texts of as many bytes and line feeds. -/
structure Alike (v w : List Char) : Prop where
  byteSize_eq : byteSize v = byteSize w
  lineFeeds_eq : lineFeeds v = lineFeeds w

theorem Alike.append_blankOut (h : Alike v u) (ts : List Token) (offset : Nat) (cs : List Char) :
    Alike (v ++ blankOut ts offset cs) (u ++ cs) where
  byteSize_eq := by rw [byteSize_append, byteSize_append, h.byteSize_eq, byteSize_blankOut]
  lineFeeds_eq := by rw [lineFeeds_append, lineFeeds_append, h.lineFeeds_eq, lineFeeds_blankOut]

namespace Item

/-- The token of an item knows of the text before its piece only what that measures. -/
theorem token_of_alike (item : Item) (h : Alike v (u ++ item.gap)) :
    (⟨[], item.piece⟩ : Item).token v = item.token u := by
  have hstop : byteSize (v ++ item.piece.text) = byteSize (u ++ item.text) := by
    rw [text, ← List.append_assoc, byteSize_append, byteSize_append (u ++ item.gap),
      h.byteSize_eq]
  rw [token, token, text, List.append_nil, List.nil_append, hstop, h.byteSize_eq, h.lineFeeds_eq]

theorem isUnexpected_token_first (u cs : List Char) :
    ((first cs).token u).isUnexpected = true ↔
      (first cs).piece.outcome = .error .unexpectedCharacter := by
  rw [Token.isUnexpected, decide_eq_true_eq, token, first, Piece.error?_token_next]
  cases (Piece.next (Trivia.rest cs)).outcome with
  | ok kind => simp
  | error e => simp

end Item

/-- Where only trivia are left, the end token stays as it is. -/
theorem tokensAfter_blankOut_of_last (h : TokensBehind ts u cs)
    (hlast : (Item.first cs).piece.text = []) (hv : Alike v u) :
    tokensAfter v (items (blankOut ts (byteSize u) cs)) = [(Item.first cs).token u] := by
  -- The last item is a gap alone, and blanking leaves it one.
  have hgap : (Item.first cs).gap = cs := Item.piece_first_eq_nil.1 hlast
  have hpiece : (Item.first cs).piece = Piece.next [] := by
    rw [Item.first, Piece.text_next_eq_nil.1 hlast]
  have hitems : items [] = [⟨[], (Item.first cs).piece⟩] := by
    rw [hpiece]
    exact items_of_last rfl
  have hblank := h.isBlank_of_mem_gap
  have htoken := Item.token_of_alike (Item.first cs)
    (hv.append_blankOut ts (byteSize u) (Item.first cs).gap)
  rw [hgap] at hblank htoken
  have happend := tokensAfter_trivia_append (Trivia.leading_append_of_isBlank hblank []) v
  rw [List.append_nil, hitems, tokensAfter, htoken] at happend
  exact happend

/-- An unexpected character becomes blanks, which go to the gap of the next token. -/
theorem tokensAfter_blankOut_of_unexpected (h : TokensBehind ts u cs)
    (hunexpected : ((Item.first cs).token u).isUnexpected = true) (v : List Char) :
    tokensAfter v (items (blankOut ts (byteSize u) cs)) =
      tokensAfter (v ++ blankOut ts (byteSize u) (Item.first cs).text)
        (items (blankOut ts (byteSize (u ++ (Item.first cs).text)) (Item.rest cs))) := by
  have hblank := h.isBlank_of_mem_text hunexpected
  conv_lhs => rw [← Item.text_append_rest cs]
  rw [blankOut_append, ← byteSize_append]
  exact tokensAfter_trivia_append (Trivia.leading_append_of_isBlank hblank _) v

/-- Every other token stays: its piece ends where it did before what becomes of the rest. -/
theorem tokensAfter_blankOut_of_kept (h : TokensBehind ts u cs)
    (hpiece : (Item.first cs).piece.text ≠ [])
    (hkept : ((Item.first cs).token u).isUnexpected = false) (hv : Alike v u) :
    tokensAfter v (items (blankOut ts (byteSize u) cs)) =
      (Item.first cs).token u ::
        tokensAfter (v ++ blankOut ts (byteSize u) (Item.first cs).text)
          (items (blankOut ts (byteSize (u ++ (Item.first cs).text)) (Item.rest cs))) := by
  have htext : blankOut ts (byteSize u) (Item.first cs).text =
      blankOut ts (byteSize u) (Item.first cs).gap ++ (Item.first cs).piece.text := by
    rw [Item.text, blankOut_append, h.blankOut_piece hkept]
  -- A string that is not closed takes all that is left, so nothing stands behind it.
  have hopen : (Item.first cs).piece.outcome = .error .unterminatedString →
      blankOut ts (byteSize (u ++ (Item.first cs).text)) (Item.rest cs) = [] := by
    intro hopen
    have hnil : Item.rest cs = [] := by
      by_contra hne
      exact Item.outcome_ne_unterminated hne hopen
    rw [hnil, blankOut]
  have htoken := Item.token_of_alike (Item.first cs)
    (hv.append_blankOut ts (byteSize u) (Item.first cs).gap)
  have hitems := items_piece_append
    (stopsAs_blankOut ts (byteSize (u ++ (Item.first cs).text)) (Item.rest cs)) hpiece hopen
  have hblank := Trivia.leading_append_of_isBlank h.isBlank_of_mem_gap
    ((Item.first cs).piece.text ++
      blankOut ts (byteSize (u ++ (Item.first cs).text)) (Item.rest cs))
  conv_lhs => rw [← Item.text_append_rest cs]
  rw [blankOut_append, ← byteSize_append, htext, List.append_assoc,
    tokensAfter_trivia_append hblank, hitems, tokensAfter, htoken, Item.text, List.nil_append,
    List.append_assoc]

/-- Blanking out a text leaves its tokens but for the unexpected characters. What stands before the
    text may be changed as long as it measures the same. -/
theorem tokensAfter_blankOut (h : TokensBehind ts u cs) (hv : Alike v u) :
    tokensAfter v (items (blankOut ts (byteSize u) cs)) =
      (tokensAfter u (items cs)).filter (!·.isUnexpected) := by
  -- Item by item: what is blanked in front may change, as long as its bytes and lines do not.
  induction cs using items_induction generalizing u v with
  | last cs hlast =>
    have hkept : ((Item.first cs).token u).isUnexpected = false := by
      rw [← Bool.not_eq_true, Item.isUnexpected_token_first, Item.first,
        Piece.text_next_eq_nil.1 hlast]
      rintro ⟨⟩
    rw [tokensAfter_blankOut_of_last h hlast hv, items_of_last hlast, tokensAfter, tokensAfter,
      List.filter_cons_of_pos (by simp [hkept]), List.filter_nil]
  | piece cs hpiece ih =>
    -- Behind the item the texts in front are alike again, whatever was blanked in it.
    have hrest := ih (h.rest hpiece) (hv.append_blankOut ts (byteSize u) (Item.first cs).text)
    rw [items_of_piece hpiece, tokensAfter]
    cases hunexpected : ((Item.first cs).token u).isUnexpected with
    | true =>
      rw [tokensAfter_blankOut_of_unexpected h hunexpected, hrest,
        List.filter_cons_of_neg (by simp [hunexpected])]
    | false =>
      rw [tokensAfter_blankOut_of_kept h hpiece hunexpected hv, hrest,
        List.filter_cons_of_pos (by simp [hunexpected])]

/-- The tokens of a blanked text are those that were kept, with the same spans. -/
theorem tokens_blanked (source : String) :
    tokens (blanked source (tokens source)) = (tokens source).filter (!·.isUnexpected) := by
  have halike : Alike [] [] := ⟨rfl, rfl⟩
  have hblanked := tokensAfter_blankOut (TokensBehind.start source) halike
  rw [tokens, blanked, String.toList_ofList]
  exact hblanked

/-- A source in which all is blanked out that is no token, comments and unexpected characters
    included, has the same tokens but for the unexpected characters, each on its line and over its
    span. -/
theorem tokenize_blanked {source : String} (h : Scannable source) :
    ∃ ts, tokenize source = .ok ts ∧
      tokenize (blanked source ts) =
        .ok (ts.filter (·.error? ≠ some .unexpectedCharacter)) := by
  refine ⟨tokens source, tokenize_of_scannable h, ?_⟩
  have hblanked : Scannable (blanked source (tokens source)) := by
    constructor
    · rw [← byteSize_toList, blanked, String.toList_ofList, byteSize_blankOut, byteSize_toList]
      exact h.size_le
    · rw [blanked, String.toList_ofList, lineFeeds_blankOut]
      exact h.lineFeeds_lt
  rw [tokenize_of_scannable hblanked, tokens_blanked]
  simp [Token.isUnexpected]

/-- A point stays a point before a character of two bytes, and what looks like a comment stays in
    its string. -/
theorem tokenize_blanked_point :
    Scannable "3.é//x\n@\"//" ∧
      tokenize "3.é//x\n@\"//" = .ok [⟨.number, "3", 1, ⟨0, 1⟩⟩, ⟨.dot, ".", 1, ⟨1, 2⟩⟩,
        ⟨.error, "Unexpected character.", 1, ⟨2, 4⟩⟩, ⟨.error, "Unexpected character.", 2, ⟨8, 9⟩⟩,
        ⟨.error, "Unterminated string.", 2, ⟨9, 12⟩⟩, ⟨.eof, "", 2, ⟨12, 12⟩⟩] ∧
      tokenize "3.     \n \"//" = .ok [⟨.number, "3", 1, ⟨0, 1⟩⟩, ⟨.dot, ".", 1, ⟨1, 2⟩⟩,
        ⟨.error, "Unterminated string.", 2, ⟨9, 12⟩⟩, ⟨.eof, "", 2, ⟨12, 12⟩⟩] := by
  -- Inside the comment and the string the same characters stand as outside.
  have h : Scannable "3.é//x\n@\"//" := ⟨by decide, by decide⟩
  have htokens : tokenize "3.é//x\n@\"//" = .ok [⟨.number, "3", 1, ⟨0, 1⟩⟩, ⟨.dot, ".", 1, ⟨1, 2⟩⟩,
      ⟨.error, "Unexpected character.", 1, ⟨2, 4⟩⟩, ⟨.error, "Unexpected character.", 2, ⟨8, 9⟩⟩,
      ⟨.error, "Unterminated string.", 2, ⟨9, 12⟩⟩, ⟨.eof, "", 2, ⟨12, 12⟩⟩] := by
    decide +kernel
  obtain ⟨ts, hts, hall⟩ := tokenize_blanked h
  rw [htokens, Except.ok.injEq] at hts
  subst hts
  have hblanked : blanked "3.é//x\n@\"//" [⟨.number, "3", 1, ⟨0, 1⟩⟩, ⟨.dot, ".", 1, ⟨1, 2⟩⟩,
      ⟨.error, "Unexpected character.", 1, ⟨2, 4⟩⟩, ⟨.error, "Unexpected character.", 2, ⟨8, 9⟩⟩,
      ⟨.error, "Unterminated string.", 2, ⟨9, 12⟩⟩, ⟨.eof, "", 2, ⟨12, 12⟩⟩] =
      "3.     \n \"//" := by
    decide +kernel
  rw [hblanked] at hall
  exact ⟨h, htokens, hall⟩

end Lexis

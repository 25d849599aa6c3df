/-
  Lexis.Proofs.Scan.Tiling

  The spans of the tokens of a source tile it.

  Between the spans stand trivia; the spans and what stands between them, put together in order,
  are the source. A span names the lexeme of its token unless the token is an error, and then it
  names what is wrong: one character, or a string that has no end.
-/

import Lexis.Proofs.Scan.LongestMatch

namespace Lexis

open Lexis.Grammar Lexis.Text

/-- What stands between the spans of tokens, from an offset on. -/
def gapSpans (start : Nat) : List Token → List Span
  | [] => []
  | t :: ts => ⟨start, t.span.start⟩ :: gapSpans t.span.stop ts

/-- The spans of tokens leave nothing of a source out and overlap nowhere. -/
structure Tiled (source : String) (ts : List Token) : Prop where
  start_le_stop : ∀ t ∈ ts, t.span.start ≤ t.span.stop
  stop_le : ∀ t ∈ ts, t.span.stop ≤ source.utf8ByteSize
  isValid_start : ∀ t ∈ ts, (⟨t.span.start⟩ : String.Pos.Raw).IsValid source
  isValid_stop : ∀ t ∈ ts, (⟨t.span.stop⟩ : String.Pos.Raw).IsValid source
  /-- Only the end token takes up nothing. -/
  isEmpty_iff : ∀ t ∈ ts, t.span.isEmpty = true ↔ t.isEof = true
  ordered : ts.Pairwise fun a b => a.span.stop ≤ b.span.start
  /-- The last token and no other is the end token, and it stands at the end of the source. -/
  eof : ∃ before t, ts = before ++ [t] ∧ t.isEof = true ∧ (∀ b ∈ before, b.isEof = false) ∧
    t.span = .point source.utf8ByteSize
  /-- Gaps and tokens in turn are the source, and the gaps are trivia. -/
  whole : ∃ gaps texts : List String,
    (gapSpans 0 ts).map (·.slice? source) = gaps.map some ∧
    ts.map (·.span.slice? source) = texts.map some ∧
    (∀ gap ∈ gaps, gap.toList ∈ trivia) ∧
    String.join (List.zipWith (· ++ ·) gaps texts) = source
  lexeme : ∀ t ∈ ts, t.isError = false → t.span.slice? source = some t.lexeme
  /-- A token of the kind of errors reports one of the two. -/
  isSome_error? : ∀ t ∈ ts, t.isError = true → t.error?.isSome = true
  unexpected : ∀ t ∈ ts, t.error? = some .unexpectedCharacter →
    ∃ c : Char, t.span.slice? source = some (String.singleton c)
  /-- A string without an end goes on to the end of the source, and just the end token follows. -/
  unterminated : ∀ t ∈ ts, t.error? = some .unterminatedString →
    (∃ body, t.span.slice? source = some (String.ofList ('"' :: body)) ∧ '"' ∉ body) ∧
    t.span.stop = source.utf8ByteSize ∧
    ∃ before eof, ts = before ++ [t, eof] ∧ eof.isEof = true

variable {source : String} {u r : List Char}

/-! ## One span -/

/-- The text between two splits of a source is what the span between their sizes names. -/
theorem Span.slice?_of_toList {v : List Char} (h : source.toList = u ++ (v ++ r)) :
    Span.slice? ⟨byteSize u, byteSize (u ++ v)⟩ source = some (String.ofList v) := by
  rw [Span.slice?, h, byteSize_append, slice?_append, Option.map_some]

namespace Item

theorem start_le_stop_token (u : List Char) (item : Item) :
    (item.token u).span.start ≤ (item.token u).span.stop := by
  rw [span_token, text]
  simp

theorem slice?_gap {item : Item} (h : source.toList = u ++ (item.text ++ r)) :
    Span.slice? ⟨byteSize u, (item.token u).span.start⟩ source =
      some (String.ofList item.gap) := by
  rw [span_token]
  exact Span.slice?_of_toList (r := item.piece.text ++ r) (by rw [h, text, List.append_assoc])

/-- The slice of a token's span is the text of its piece. -/
theorem slice?_span {item : Item} (h : source.toList = u ++ (item.text ++ r)) :
    (item.token u).span.slice? source = some (String.ofList item.piece.text) := by
  rw [span_token, text, ← List.append_assoc]
  apply Span.slice?_of_toList (r := r)
  rw [h, text]
  simp only [List.append_assoc]

theorem isEmpty_span_token (u : List Char) (item : Item) :
    (item.token u).span.isEmpty = true ↔ item.piece.text = [] := by
  have hstop : byteSize (u ++ item.text) = byteSize (u ++ item.gap) + byteSize item.piece.text := by
    rw [text, ← List.append_assoc, byteSize_append]
  -- A span is as long as its piece, whatever gap stands before it.
  rw [span_token, Span.isEmpty, beq_iff_eq, hstop, ← byteSize_eq_zero]
  exact Nat.left_eq_add

/-- A token that is no error has the text of its piece for its lexeme. -/
theorem lexeme_token {item : Item} (h : (item.token u).isError = false) :
    (item.token u).lexeme = String.ofList item.piece.text := by
  rw [token, Piece.token] at h ⊢
  cases houtcome : item.piece.outcome with
  | ok kind => rfl
  | error e =>
    rw [houtcome] at h
    cases h

/-- What is wrong with the text of an error token is what its first piece says. -/
theorem outcome_of_error? {e : LexicalError} (h : ((first r).token u).error? = some e) :
    ∃ c cs, Trivia.rest r = c :: cs ∧ (Piece.first c cs).outcome = .error e := by
  rw [token, first, Piece.error?_token_next] at h
  cases hrest : Trivia.rest r with
  | nil =>
    rw [hrest] at h
    cases h
  | cons c cs =>
    rw [hrest, Piece.next] at h
    refine ⟨c, cs, rfl, ?_⟩
    split at h
    · cases h
    next houtcome =>
      cases h
      exact houtcome

theorem text_of_unexpected (h : ((first r).token u).error? = some .unexpectedCharacter) :
    ∃ c, (first r).piece.text = [c] := by
  obtain ⟨c, cs, hrest, houtcome⟩ := outcome_of_error? h
  refine ⟨c, ?_⟩
  rw [first, hrest]
  exact (Piece.first_of_unexpected houtcome).2

/-- A string without an end is all that stands behind the gap. -/
theorem text_of_unterminated (h : ((first r).token u).error? = some .unterminatedString) :
    (∃ body, (first r).piece.text = '"' :: body ∧ '"' ∉ body) ∧ rest r = [] := by
  obtain ⟨c, cs, hrest, houtcome⟩ := outcome_of_error? h
  obtain ⟨rfl, hquote, htext⟩ := Piece.first_of_unterminated houtcome
  have hpiece : (first r).piece.text = '"' :: cs := by rwa [first, hrest]
  refine ⟨⟨cs, hpiece, hquote⟩, ?_⟩
  rw [rest_eq_drop, hrest, hpiece, List.drop_length]

end Item

/-! ## All spans -/

theorem le_start_of_mem_tokensAfter {its : List Item} {t : Token} (h : t ∈ tokensAfter u its) :
    byteSize u ≤ t.span.start := by
  induction its generalizing u with
  | nil => cases h
  | cons item its ih =>
    rcases List.mem_cons.1 h with rfl | h
    · simp
    · have hle := ih h
      rw [byteSize_append] at hle
      omega

/-- No span starts before the end of an earlier one. -/
theorem pairwise_tokensAfter (u : List Char) (its : List Item) :
    (tokensAfter u its).Pairwise fun a b => a.span.stop ≤ b.span.start := by
  induction its generalizing u with
  | nil => exact List.Pairwise.nil
  | cons item its ih =>
    rw [tokensAfter, List.pairwise_cons]
    refine ⟨?_, ih _⟩
    intro t ht
    rw [Item.span_token]
    exact le_start_of_mem_tokensAfter ht

/-- The gaps between the spans are those of the items. -/
theorem slices_gapSpans {its : List Item} (h : source.toList = u ++ its.flatMap Item.text) :
    (gapSpans (byteSize u) (tokensAfter u its)).map (·.slice? source) =
      (its.map fun item => String.ofList item.gap).map some := by
  induction its generalizing u with
  | nil => rfl
  | cons item its ih =>
    rw [List.flatMap_cons] at h
    -- The next gap starts where the span of this token ends.
    have hrest : source.toList = (u ++ item.text) ++ its.flatMap Item.text := by
      rw [h, List.append_assoc]
    rw [tokensAfter, gapSpans, List.map_cons, Item.slice?_gap h, Item.span_token, ih hrest]
    rfl

/-- The spans name the texts of the pieces. -/
theorem slices_spans {its : List Item} (h : source.toList = u ++ its.flatMap Item.text) :
    (tokensAfter u its).map (·.span.slice? source) =
      (its.map fun item => String.ofList item.piece.text).map some := by
  induction its generalizing u with
  | nil => rfl
  | cons item its ih =>
    rw [List.flatMap_cons] at h
    have hrest : source.toList = (u ++ item.text) ++ its.flatMap Item.text := by
      rw [h, List.append_assoc]
    rw [tokensAfter, List.map_cons, Item.slice?_span h, ih hrest]
    rfl

/-- Gaps and pieces in turn are the text of the items. -/
theorem join_gaps_pieces (its : List Item) :
    String.join (List.zipWith (· ++ ·) (its.map fun item => String.ofList item.gap)
      (its.map fun item => String.ofList item.piece.text)) =
      String.ofList (its.flatMap Item.text) := by
  induction its with
  | nil => rfl
  | cons item its ih =>
    rw [List.map_cons, List.map_cons, List.zipWith_cons_cons, String.join_cons, ih,
      List.flatMap_cons, String.ofList_append, Item.text, String.ofList_append]

/-- Every gap is trivia. -/
theorem gap_mem_trivia {cs : List Char} {item : Item} (h : item ∈ items cs) :
    item.gap ∈ trivia := by
  -- Every gap is the trivia in front of some rest of the text.
  induction cs using items_induction with
  | last cs hlast =>
    rw [items_of_last hlast, List.mem_singleton] at h
    rw [h]
    exact Trivia.leading_mem_trivia cs
  | piece cs hpiece ih =>
    rw [items_of_piece hpiece, List.mem_cons] at h
    rcases h with rfl | h
    · exact Trivia.leading_mem_trivia cs
    · exact ih h

/-- The end token comes last and only there. -/
theorem exists_tokensAfter_eq_append (u cs : List Char) :
    ∃ before t, tokensAfter u (items cs) = before ++ [t] ∧ t.isEof = true ∧
      (∀ b ∈ before, b.isEof = false) ∧ t.span = .point (byteSize (u ++ cs)) := by
  -- The end is the only token without a piece, and stands last.
  induction cs using items_induction generalizing u with
  | last cs h =>
    rw [items_of_last h]
    refine ⟨[], (Item.first cs).token u, rfl, Item.isEof_token_first.2 h, by simp, ?_⟩
    rw [Item.span_token, text_of_last h, Item.first, Item.piece_first_eq_nil.1 h]
    rfl
  | piece cs h ih =>
    obtain ⟨before, t, hts, ht, hbefore, hspan⟩ := ih (u ++ (Item.first cs).text)
    rw [List.append_assoc, Item.text_append_rest] at hspan
    rw [items_of_piece h, tokensAfter, hts]
    refine ⟨(Item.first cs).token u :: before, t, rfl, ht, ?_, hspan⟩
    intro b hb
    rcases List.mem_cons.1 hb with rfl | hb
    · rw [← Bool.not_eq_true, Item.isEof_token_first]
      exact h
    · exact hbefore b hb

/-- Without the end token means without the last. -/
theorem filter_not_isEof_tokensAfter (u cs : List Char) :
    (tokensAfter u (items cs)).filter (!·.isEof) = (tokensAfter u (items cs)).dropLast := by
  obtain ⟨before, t, hts, ht, hbefore, -⟩ := exists_tokensAfter_eq_append u cs
  rw [hts, List.dropLast_concat, List.filter_append, List.filter_eq_self.2 (by simpa using hbefore)]
  simp [ht]

/-- Behind a string without an end there is only the end token. -/
theorem exists_tokensAfter_eq_append_pair {cs : List Char} {t : Token}
    (ht : t ∈ tokensAfter u (items cs)) (herror : t.error? = some .unterminatedString) :
    ∃ before eof, tokensAfter u (items cs) = before ++ [t, eof] ∧ eof.isEof = true := by
  induction cs using items_induction generalizing u with
  | last cs h =>
    rw [items_of_last h, tokensAfter, tokensAfter, List.mem_singleton] at ht
    subst ht
    -- The last item has no piece, but a string has a quote at least.
    obtain ⟨⟨body, htext, -⟩, -⟩ := Item.text_of_unterminated herror
    rw [h] at htext
    cases htext
  | piece cs h ih =>
    rw [items_of_piece h, tokensAfter] at ht ⊢
    rcases List.mem_cons.1 ht with rfl | ht
    · -- Nothing is left behind the string, and the items of nothing are the end.
      obtain ⟨-, hrest⟩ := Item.text_of_unterminated herror
      have hnil : items [] = [Item.first []] := items_of_last rfl
      rw [hrest, hnil]
      exact ⟨[], _, rfl, Item.isEof_token_first.2 rfl⟩
    · obtain ⟨before, eof, hts, heof⟩ := ih ht
      exact ⟨_ :: before, eof, by rw [hts]; rfl, heof⟩

/-- What holds of the first token behind any beginning of a source holds of all its tokens. -/
theorem forall_mem_tokens {p : Token → Prop}
    (h : ∀ u r, source.toList = u ++ ((Item.first r).text ++ Item.rest r) →
      p ((Item.first r).token u)) : ∀ t ∈ tokens source, p t := by
  intro t ht
  obtain ⟨u, r, hr, rfl⟩ := exists_of_mem_tokens ht
  exact h u r (by rw [hr, Item.text_append_rest])

/-- The tokens of a source tile it. -/
theorem tiled_tokens (source : String) : Tiled source (tokens source) where
  start_le_stop := forall_mem_tokens fun u r _ => Item.start_le_stop_token u (Item.first r)
  stop_le := by
    apply forall_mem_tokens
    intro u r h
    rw [Item.span_token, ← byteSize_toList, h, ← List.append_assoc, byteSize_append (u ++ _)]
    exact Nat.le_add_right _ _
  isValid_start := by
    apply forall_mem_tokens
    intro u r h
    rw [Item.span_token]
    apply isValid_byteSize (r := (Item.first r).piece.text ++ Item.rest r)
    rw [h, Item.text]
    simp only [List.append_assoc]
  isValid_stop := by
    apply forall_mem_tokens
    intro u r h
    rw [Item.span_token]
    exact isValid_byteSize (by rw [h, List.append_assoc])
  isEmpty_iff := by
    apply forall_mem_tokens
    intro u r _
    rw [Item.isEmpty_span_token, Item.isEof_token_first]
  ordered := pairwise_tokensAfter [] _
  eof := by
    rw [← byteSize_toList]
    exact exists_tokensAfter_eq_append [] source.toList
  whole := by
    -- The gaps and texts of the items, in their order.
    have hitems : source.toList = [] ++ (items source.toList).flatMap Item.text := by
      rw [flatMap_text_items, List.nil_append]
    refine ⟨_, _, slices_gapSpans hitems, slices_spans hitems, ?_, ?_⟩
    · intro gap hgap
      obtain ⟨item, hitem, rfl⟩ := List.mem_map.1 hgap
      rw [String.toList_ofList]
      exact gap_mem_trivia hitem
    · rw [join_gaps_pieces, flatMap_text_items, String.ofList_toList]
  lexeme := by
    apply forall_mem_tokens
    intro u r h hok
    rw [Item.slice?_span h, Item.lexeme_token hok]
  isSome_error? := by
    apply forall_mem_tokens
    intro u r _ herror
    rwa [Item.token, Item.first, ← Piece.isError_token_next]
  unexpected := by
    apply forall_mem_tokens
    intro u r h herror
    obtain ⟨c, hc⟩ := Item.text_of_unexpected herror
    rw [Item.slice?_span h, hc]
    exact ⟨c, rfl⟩
  unterminated := by
    intro t ht herror
    have hpair := exists_tokensAfter_eq_append_pair ht herror
    -- The item of the token takes up all that is left, so its span ends with the source.
    obtain ⟨u, r, hr, rfl⟩ := exists_of_mem_tokens ht
    obtain ⟨⟨body, htext, hquote⟩, hrest⟩ := Item.text_of_unterminated herror
    have happend := Item.text_append_rest r
    have hsplit : source.toList = u ++ ((Item.first r).text ++ Item.rest r) := by
      rw [hr, happend]
    rw [hrest, List.append_nil] at happend
    refine ⟨⟨body, ?_, hquote⟩, ?_, hpair⟩
    · rw [Item.slice?_span hsplit, htext]
    · rw [Item.span_token, happend, ← hr, byteSize_toList]

/-- The spans of the tokens of every source tile it. -/
theorem tokenize_tiled {source : String} (h : Scannable source) :
    ∃ ts, tokenize source = .ok ts ∧ Tiled source ts :=
  ⟨tokens source, tokenize_of_scannable h, tiled_tokens source⟩

theorem tokenize_tiled_unterminated :
    Scannable "a \"é" ∧ Tiled "a \"é"
      [⟨.identifier, "a", 1, ⟨0, 1⟩⟩, ⟨.error, "Unterminated string.", 1, ⟨2, 5⟩⟩,
        ⟨.eof, "", 1, ⟨5, 5⟩⟩] := by
  have h : Scannable "a \"é" := ⟨by decide, by decide⟩
  obtain ⟨ts, hts, htiled⟩ := tokenize_tiled h
  have htokens : tokenize "a \"é" =
      .ok [⟨.identifier, "a", 1, ⟨0, 1⟩⟩, ⟨.error, "Unterminated string.", 1, ⟨2, 5⟩⟩,
        ⟨.eof, "", 1, ⟨5, 5⟩⟩] := by
    decide +kernel
  rw [hts, Except.ok.injEq] at htokens
  rw [htokens] at htiled
  exact ⟨h, htiled⟩

end Lexis

/-
  Lexis.Proofs.Scan.LineEnds

  Carriage returns before line feeds.

  A source whose lines end in CR LF has the tokens of the one whose lines end in LF. Wherever a line
  feed is read or looked ahead at, the pair is treated as the line feed by itself: both characters
  are blanks, both belong to comments and strings or to neither, and neither joins any other piece.
  So the items of the one source are those of the other, with the pairs in their texts.
-/

import Lexis.Proofs.Scan.Lookahead

namespace Lexis

namespace Text

/-- A text with a carriage return put before every line feed. -/
def crlf : List Char → List Char
  | [] => []
  | c :: cs => if c = '\n' then '\r' :: '\n' :: crlf cs else c :: crlf cs

variable {p : Char → Bool} {c : Char} {cs : List Char}

@[simp] theorem crlf_nil : crlf [] = [] := rfl

theorem crlf_lineFeed (cs : List Char) : crlf ('\n' :: cs) = '\r' :: '\n' :: crlf cs := rfl

theorem crlf_cons (hc : c ≠ '\n') (cs : List Char) : crlf (c :: cs) = c :: crlf cs :=
  if_neg hc

theorem crlf_eq_nil : crlf cs = [] ↔ cs = [] := by
  cases cs with
  | nil => simp
  | cons c cs =>
    rw [crlf]
    split <;> simp

theorem crlf_append (a b : List Char) : crlf (a ++ b) = crlf a ++ crlf b := by
  induction a with
  | nil => rfl
  | cons c a ih =>
    by_cases hc : c = '\n'
    · rw [hc, List.cons_append, crlf_lineFeed, crlf_lineFeed, ih]
      rfl
    · rw [List.cons_append, crlf_cons hc, crlf_cons hc, ih, List.cons_append]

@[simp] theorem lineFeeds_crlf (cs : List Char) : lineFeeds (crlf cs) = lineFeeds cs := by
  induction cs with
  | nil => rfl
  | cons c cs ih =>
    by_cases hc : c = '\n'
    · rw [hc, crlf_lineFeed, lineFeeds_cons, lineFeeds_cons, lineFeeds_cons, ih]
      simp
    · rw [crlf_cons hc, lineFeeds_cons, lineFeeds_cons, ih]

/-- Each line feed makes the text one byte longer. -/
theorem byteSize_crlf (cs : List Char) : byteSize (crlf cs) = byteSize cs + lineFeeds cs := by
  have hreturn : '\r'.utf8Size = 1 := rfl
  induction cs with
  | nil => rfl
  | cons c cs ih =>
    by_cases hc : c = '\n'
    · rw [hc, crlf_lineFeed, byteSize_cons, byteSize_cons, byteSize_cons, ih, lineFeeds_cons,
        hreturn, if_pos rfl]
      omega
    · rw [crlf_cons hc, byteSize_cons, byteSize_cons, ih, lineFeeds_cons, if_neg hc]
      omega

theorem crlf_of_forall_ne (h : ∀ c ∈ cs, c ≠ '\n') : crlf cs = cs := by
  induction cs with
  | nil => rfl
  | cons c cs ih =>
    obtain ⟨hc, hcs⟩ := List.forall_mem_cons.1 h
    rw [crlf_cons hc, ih hcs]

/-- At the front of a text any character but the two is as it was. -/
theorem head?_crlf (hreturn : c ≠ '\r') (hfeed : c ≠ '\n') (cs : List Char) :
    (crlf cs).head? = some c ↔ cs.head? = some c := by
  cases cs with
  | nil => rfl
  | cons x cs =>
    by_cases hx : x = '\n'
    · rw [hx, crlf_lineFeed, List.head?_cons, List.head?_cons]
      simp [hreturn.symm, hfeed.symm]
    · rw [crlf_cons hx, List.head?_cons, List.head?_cons]

/-! ## Runs of a class that has both characters or neither -/

/-- A class that treats both ends of a line alike runs as far with returns as without. -/
theorem takeWhile_crlf (h : p '\r' = p '\n') (cs : List Char) :
    (crlf cs).takeWhile p = crlf (cs.takeWhile p) := by
  induction cs with
  | nil => rfl
  | cons c cs ih =>
    by_cases hc : c = '\n'
    -- The return is in the class exactly if the line feed is: both are taken, or neither.
    · subst hc
      rw [crlf_lineFeed, List.takeWhile_cons, List.takeWhile_cons, List.takeWhile_cons, h]
      cases p '\n' with
      | true => rw [if_pos rfl, if_pos rfl, if_pos rfl, ih, crlf_lineFeed]
      | false => rfl
    · rw [crlf_cons hc, List.takeWhile_cons, List.takeWhile_cons]
      cases p c with
      | true => rw [if_pos rfl, if_pos rfl, ih, crlf_cons hc]
      | false => rfl

theorem dropWhile_crlf (h : p '\r' = p '\n') (cs : List Char) :
    (crlf cs).dropWhile p = crlf (cs.dropWhile p) := by
  have hall := congrArg crlf (List.takeWhile_append_dropWhile (p := p) (l := cs))
  rw [crlf_append, ← takeWhile_crlf h] at hall
  exact List.append_cancel_left (List.takeWhile_append_dropWhile.trans hall.symm)

/-- A run of a class without the two characters stays as it is. -/
theorem crlf_takeWhile (h : p '\n' = false) (cs : List Char) :
    crlf (cs.takeWhile p) = cs.takeWhile p := by
  apply crlf_of_forall_ne
  rintro c hc rfl
  rw [List.mem_takeWhile_imp hc] at h
  cases h

end Text

open Lexis.Text

/-! ## Trivia -/

namespace Trivia

/-- Trivia with returns is the trivia, with returns: a comment may end in one. -/
theorem leading_crlf (inComment : Bool) (cs : List Char) :
    leading inComment (crlf cs) = crlf (leading inComment cs) := by
  induction cs generalizing inComment with
  | nil => rfl
  | cons c cs ih =>
    by_cases hc : c = '\n'
    · -- Inside a comment and outside, both characters are read, and the comment is over.
      subst hc
      cases inComment with
      | true => simp [crlf_lineFeed, leading, ih]
      | false => simp [crlf_lineFeed, leading, isBlank, ih]
    -- A slash behind is a slash behind: a return is put in front of line feeds only.
    · have hslash : (crlf cs).head? = some '/' ↔ cs.head? = some '/' :=
        head?_crlf (by decide) (by decide) cs
      rw [crlf_cons hc, leading, leading]
      simp only [hslash, ih]
      split
      -- The branches of the recursion, each of which keeps the character or stops.
      · rw [crlf_cons hc]
      · split
        · rw [crlf_cons hc]
        · split
          · rw [crlf_cons hc]
          · rfl

theorem rest_crlf (cs : List Char) : rest (crlf cs) = crlf (rest cs) := by
  have hall := congrArg crlf (leading_append_rest cs)
  rw [crlf_append, ← leading_crlf] at hall
  exact List.append_cancel_left ((leading_append_rest (crlf cs)).trans hall.symm)

end Trivia

/-! ## Pieces -/

namespace Piece

/-- A piece with the pairs in its text. -/
def crlf (p : Piece) : Piece :=
  ⟨p.outcome, Text.crlf p.text⟩

variable {c : Char}

/-- A fraction has neither of the two characters, and neither starts one. -/
theorem fraction_crlf (cs : List Char) : fraction (Text.crlf cs) = fraction cs := by
  cases cs with
  | nil => rfl
  | cons c cs =>
    by_cases hfeed : c = '\n'
    · rw [hfeed, crlf_lineFeed, fraction_of_ne (by decide), fraction_of_ne (by decide)]
    · rw [crlf_cons hfeed]
      by_cases hpoint : c = '.'
      · subst hpoint
        cases cs with
        | nil => rfl
        | cons d ds =>
          by_cases hd : isDigit d = true
          · have hne : d ≠ '\n' := by
              rintro rfl
              cases hd
            rw [crlf_cons hne, fraction_of_digit hd, fraction_of_digit hd, ← crlf_cons hne,
              takeWhile_crlf rfl, crlf_takeWhile rfl]
          · -- A point before a pair is a point before no digit, as it is before a line feed.
            have hbehind : ∀ x ∈ (Text.crlf (d :: ds)).head?, isDigit x = false := by
              intro x hx
              by_cases hne : d = '\n'
              · rw [hne, crlf_lineFeed, List.head?_cons] at hx
                rw [← Option.some.inj hx]
                decide
              · rw [crlf_cons hne, List.head?_cons] at hx
                rw [← Option.some.inj hx]
                simpa using hd
            rw [fraction_of_point hbehind, fraction_of_point (by simpa using hd)]
      · rw [fraction_of_ne hpoint, fraction_of_ne hpoint]

theorem crlf_fraction (cs : List Char) : Text.crlf (fraction cs) = fraction cs := by
  by_cases h : fraction cs = []
  · rw [h, crlf_nil]
  · obtain ⟨d, ds, rfl, hd⟩ := fraction_ne_nil.1 h
    rw [fraction_of_digit hd, crlf_cons (by decide), crlf_takeWhile rfl]

theorem number_crlf (hc : c ≠ '\n') (cs : List Char) :
    number c (Text.crlf cs) = (number c cs).crlf := by
  rw [number, number, crlf, takeWhile_crlf rfl, dropWhile_crlf rfl, fraction_crlf, crlf_cons hc,
    crlf_append, crlf_fraction]

theorem word_crlf (hc : c ≠ '\n') (cs : List Char) :
    word c (Text.crlf cs) = (word c cs).crlf := by
  have hrun : (Text.crlf cs).takeWhile isWordPart = cs.takeWhile isWordPart := by
    rw [takeWhile_crlf rfl, crlf_takeWhile rfl]
  rw [word, word, crlf, hrun, crlf_cons hc, crlf_takeWhile rfl]

/-- In a string the pairs are part of the text. -/
theorem string_crlf (cs : List Char) : string (Text.crlf cs) = (string cs).crlf := by
  have hrest : (Text.crlf cs).dropWhile (· ≠ '"') = Text.crlf (cs.dropWhile (· ≠ '"')) :=
    dropWhile_crlf rfl cs
  cases hdrop : cs.dropWhile (· ≠ '"') with
  | nil =>
    rw [hdrop] at hrest
    rw [string_of_open hdrop, string_of_open hrest, crlf, crlf_cons (by decide)]
  | cons quote rest =>
    obtain rfl := dropWhile_quote hdrop
    rw [hdrop, crlf_cons (by decide)] at hrest
    rw [string_of_closed hdrop, string_of_closed hrest, crlf, crlf_cons (by decide), crlf_append,
      takeWhile_crlf rfl]
    rfl

theorem symbol_crlf (hc : c ≠ '\n') (cs : List Char) :
    symbol c (Text.crlf cs) = (symbol c cs).crlf := by
  have hequal : (Text.crlf cs).head? = some '=' ↔ cs.head? = some '=' :=
    head?_crlf (by decide) (by decide) cs
  have hone : Text.crlf [c] = [c] := crlf_cons hc []
  have htwo : Text.crlf [c, '='] = [c, '='] := crlf_cons hc ['=']
  unfold symbol
  cases Symbol.operator? c with
  | some kinds =>
    simp only [operator, hequal]
    split
    · rw [crlf, htwo]
    · rw [crlf, hone]
  | none =>
    cases Symbol.single? c with
    | some kind => rw [crlf, hone]
    | none => rw [crlf, hone]

/-- A piece that does not start with a line feed is the same but for the pairs. -/
theorem first_crlf (hc : c ≠ '\n') (cs : List Char) :
    first c (Text.crlf cs) = (first c cs).crlf := by
  unfold first
  by_cases hdigit : isDigit c = true
  · rw [if_pos hdigit, if_pos hdigit, number_crlf hc]
  · rw [if_neg hdigit, if_neg hdigit]
    by_cases hword : isWordStart c = true
    · rw [if_pos hword, if_pos hword, word_crlf hc]
    · rw [if_neg hword, if_neg hword]
      by_cases hquote : c = '"'
      · rw [if_pos hquote, if_pos hquote, string_crlf]
      · rw [if_neg hquote, if_neg hquote, symbol_crlf hc]

/-- Behind trivia a text does not start with a line feed. -/
theorem next_rest_crlf (cs : List Char) :
    next (Trivia.rest (Text.crlf cs)) = (next (Trivia.rest cs)).crlf := by
  have hleading := Trivia.leading_rest cs
  rw [Trivia.rest_crlf]
  cases hrest : Trivia.rest cs with
  | nil => rfl
  | cons c r =>
    -- What follows the trivia is no blank, so no line feed.
    have hc : c ≠ '\n' := by
      rintro rfl
      rw [hrest, Trivia.leading_blank (by decide)] at hleading
      cases hleading
    rw [crlf_cons hc, next, next, first_crlf hc]

end Piece

/-! ## Items -/

namespace Item

/-- An item with the pairs in its texts. -/
def crlf (item : Item) : Item :=
  ⟨Text.crlf item.gap, item.piece.crlf⟩

@[simp] theorem text_crlf (item : Item) : item.crlf.text = Text.crlf item.text :=
  (crlf_append item.gap item.piece.text).symm

theorem first_crlf (cs : List Char) : first (Text.crlf cs) = (first cs).crlf := by
  rw [first, Trivia.leading_crlf, Piece.next_rest_crlf]
  rfl

theorem rest_crlf (cs : List Char) : rest (Text.crlf cs) = Text.crlf (rest cs) := by
  have hall := congrArg Text.crlf (text_append_rest cs)
  rw [crlf_append, ← text_crlf, ← first_crlf] at hall
  exact List.append_cancel_left ((text_append_rest (Text.crlf cs)).trans hall.symm)

theorem text_piece_crlf_eq_nil {item : Item} :
    item.crlf.piece.text = [] ↔ item.piece.text = [] :=
  crlf_eq_nil

end Item

/-- Item by item, by induction on the items. -/
theorem items_crlf (cs : List Char) : items (crlf cs) = (items cs).map Item.crlf := by
  -- Item by item: the first of the text with returns is the first, with returns.
  induction cs using items_induction with
  | last cs h =>
    have hlast : (Item.first (crlf cs)).piece.text = [] := by
      rw [Item.first_crlf]
      exact Item.text_piece_crlf_eq_nil.2 h
    rw [items_of_last h, items_of_last hlast, List.map_singleton, Item.first_crlf]
  | piece cs h ih =>
    have hpiece : (Item.first (crlf cs)).piece.text ≠ [] := by
      rw [Item.first_crlf]
      exact fun hnil => h (Item.text_piece_crlf_eq_nil.1 hnil)
    rw [items_of_piece h, items_of_piece hpiece, List.map_cons, Item.first_crlf, Item.rest_crlf, ih]

/-! ## Tokens -/

/-- A source with a carriage return put before every line feed. -/
def withReturns (source : String) : String :=
  String.ofList (crlf source.toList)

theorem withReturns_ofList (cs : List Char) :
    withReturns (String.ofList cs) = String.ofList (crlf cs) := by
  rw [withReturns, String.toList_ofList]

/-- The messages of errors have one line. -/
theorem withReturns_message (e : LexicalError) : withReturns e.message = e.message := by
  cases e <;> decide

/-- The kind and the line of a token are those of the item, the lexeme has the pairs. -/
theorem Item.token_crlf (u : List Char) (item : Item) :
    (item.crlf.token (Text.crlf u)).kind = (item.token u).kind ∧
      (item.crlf.token (Text.crlf u)).lexeme = withReturns (item.token u).lexeme ∧
      (item.crlf.token (Text.crlf u)).line = (item.token u).line := by
  have hline : lineFeeds (Text.crlf u ++ item.crlf.gap) = lineFeeds (u ++ item.gap) := by
    have hgap : item.crlf.gap = Text.crlf item.gap := rfl
    rw [hgap, ← crlf_append, lineFeeds_crlf]
  have houtcome : item.crlf.piece.outcome = item.piece.outcome := rfl
  have htext : item.crlf.piece.text = Text.crlf item.piece.text := rfl
  unfold token Piece.token
  rw [hline, houtcome, htext]
  cases item.piece.outcome with
  | ok kind => exact ⟨rfl, (withReturns_ofList _).symm, rfl⟩
  | error e => exact ⟨rfl, (withReturns_message e).symm, rfl⟩

theorem map_tokensAfter_crlf (u : List Char) (its : List Item) :
    ((tokensAfter (crlf u) (its.map Item.crlf)).map fun t => (t.kind, t.line, t.lexeme)) =
      (tokensAfter u its).map fun t => (t.kind, t.line, withReturns t.lexeme) := by
  induction its generalizing u with
  | nil => rfl
  | cons item its ih =>
    obtain ⟨hkind, hlexeme, hline⟩ := item.token_crlf u
    have hrest := ih (u ++ item.text)
    rw [crlf_append, ← Item.text_crlf] at hrest
    rw [List.map_cons, tokensAfter, tokensAfter, List.map_cons, List.map_cons, hrest, hkind,
      hlexeme, hline]

/-- The tokens of a text with returns differ in their spans and lexemes only. -/
theorem tokens_withReturns (source : String) :
    ((tokens (withReturns source)).map fun t => (t.kind, t.line, t.lexeme)) =
      (tokens source).map fun t => (t.kind, t.line, withReturns t.lexeme) := by
  rw [tokens, withReturns, String.toList_ofList, items_crlf]
  exact map_tokensAfter_crlf [] (items source.toList)

/-- The returns may make a source longer than a text in memory is, but not longer than offsets
    reach. -/
theorem size_withReturns_le {source : String} (h : Scannable source) :
    (withReturns source).utf8ByteSize ≤ Cursor.maxOffset := by
  have hsize : source.utf8ByteSize ≤ 0x7FFFFFFFFFFFFFFF := h.size_le
  have hlines : lineFeeds source.toList < 0xFFFFFFFF := h.lineFeeds_lt
  have hmax : Cursor.maxOffset = 0xFFFFFFFFFFFFFFFF := rfl
  rw [← byteSize_toList, withReturns, String.toList_ofList, byteSize_crlf, byteSize_toList, hmax]
  omega

/-- A source with a carriage return before every line feed, in strings and comments as well, has as
    many tokens as without, of the same kinds and on the same lines; in the lexemes each line feed
    has its return. -/
theorem tokenize_withReturns {source : String} (h : Scannable source) :
    ∃ ts ts', tokenize source = .ok ts ∧ tokenize (withReturns source) = .ok ts' ∧
      ts'.length = ts.length ∧
      (ts'.map fun t => (t.kind, t.line, t.lexeme)) =
        ts.map fun t => (t.kind, t.line, withReturns t.lexeme) := by
  have hlines : lineFeeds (withReturns source).toList < Cursor.maxLine := by
    rw [withReturns, String.toList_ofList, lineFeeds_crlf]
    exact h.lineFeeds_lt
  have hsame := tokens_withReturns source
  refine ⟨tokens source, tokens (withReturns source), tokenize_of_scannable h, ?_, ?_, hsame⟩
  · rw [tokenize_eq (size_withReturns_le h), if_pos hlines]
  · simpa using congrArg List.length hsame

/-- A return stands behind a number and its point, at the end of a comment and in a string. -/
theorem tokenize_withReturns_string :
    Scannable "1.\n//\n\"a\n\"" ∧
      tokenize "1.\n//\n\"a\n\"" = .ok [⟨.number, "1", 1, ⟨0, 1⟩⟩, ⟨.dot, ".", 1, ⟨1, 2⟩⟩,
        ⟨.string, "\"a\n\"", 3, ⟨6, 10⟩⟩, ⟨.eof, "", 4, ⟨10, 10⟩⟩] ∧
      ∃ ts', tokenize "1.\r\n//\r\n\"a\r\n\"" = .ok ts' ∧ ts'.length = 4 ∧
        (ts'.map fun t => (t.kind, t.line, t.lexeme)) =
          [(.number, 1, "1"), (.dot, 1, "."), (.string, 3, "\"a\r\n\""), (.eof, 4, "")] := by
  have h : Scannable "1.\n//\n\"a\n\"" := ⟨by decide, by decide⟩
  have htokens : tokenize "1.\n//\n\"a\n\"" = .ok [⟨.number, "1", 1, ⟨0, 1⟩⟩,
      ⟨.dot, ".", 1, ⟨1, 2⟩⟩, ⟨.string, "\"a\n\"", 3, ⟨6, 10⟩⟩, ⟨.eof, "", 4, ⟨10, 10⟩⟩] := by
    decide +kernel
  obtain ⟨ts, ts', hts, hts', hlength, hsame⟩ := tokenize_withReturns h
  rw [htokens, Except.ok.injEq] at hts
  subst hts
  have hreturns : withReturns "1.\n//\n\"a\n\"" = "1.\r\n//\r\n\"a\r\n\"" := by decide
  rw [hreturns] at hts'
  exact ⟨h, htokens, ts', hts', hlength, hsame⟩

end Lexis

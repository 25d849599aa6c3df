/-
  Lexis.Proofs.Scan.Lookahead

  How far the text behind a token decides where the token ends.

  A piece ends where its rule finds nothing more to take, and for that no rule looks further than
  two characters: at a point and the digit after it. `StopsAs r s` says that `r` ends every piece
  that `s` ends. A piece, and the item it stands in, then stay the same when `r` is put in place of
  `s`; so a token that has two characters behind it does not see what is appended to its source.
-/

import Lexis.Proofs.Scan.LongestMatch

namespace Lexis

open Lexis.Text

/-- A text `r` ends every piece that `s` ends: it starts as `s` does or with a blank, and with a
    fraction only if `s` starts with one. -/
structure StopsAs (r s : List Char) : Prop where
  head : r.head? = s.head? ∨ ∀ x ∈ r.head?, isBlank x = true
  fraction : Piece.fraction r ≠ [] → Piece.fraction s ≠ []

variable {v r s : List Char} {p : Char → Bool}

theorem Piece.fraction_ne_nil {cs : List Char} :
    fraction cs ≠ [] ↔ ∃ d ds, cs = '.' :: d :: ds ∧ isDigit d = true := by
  constructor
  · intro h
    unfold fraction at h
    split at h
    next d ds =>
      split at h
      next hd => exact ⟨d, ds, rfl, hd⟩
      · exact absurd rfl h
    · exact absurd rfl h
  · rintro ⟨d, ds, rfl, hd⟩
    rw [fraction_of_digit hd]
    exact List.cons_ne_nil _ _

/-- Blanks are in none of the classes that join a piece. -/
theorem isWordPart_eq_false_of_isBlank {x : Char} (hx : isBlank x = true) :
    isWordPart x = false := by
  simp only [isBlank, Bool.or_eq_true, beq_iff_eq] at hx
  rcases hx with ((rfl | rfl) | rfl) | rfl <;> decide

theorem isDigit_eq_false_of_isBlank {x : Char} (hx : isBlank x = true) : isDigit x = false := by
  have hword := isWordPart_eq_false_of_isBlank hx
  rw [isWordPart, Bool.or_eq_false_iff] at hword
  exact hword.2

theorem ne_of_isBlank {x y : Char} (hx : isBlank x = true) (hy : isBlank y = false) : x ≠ y := by
  rintro rfl
  rw [hx] at hy
  cases hy

namespace StopsAs

/-- Of the text behind its piece a rule sees two characters at most. -/
theorem append_of_two_le (h : 2 ≤ r.length) (t : List Char) : StopsAs (r ++ t) r := by
  match r, h with
  | x :: y :: r, _ =>
    refine ⟨.inl rfl, ?_⟩
    rw [Piece.fraction_ne_nil, Piece.fraction_ne_nil]
    rintro ⟨d, ds, heq, hd⟩
    obtain ⟨rfl, rfl, -⟩ : x = '.' ∧ y = d ∧ r ++ t = ds := by simpa using heq
    exact ⟨y, r, rfl, hd⟩

/-- A blank ends a piece as the end of the text does. -/
theorem append_blank {x : Char} (hx : isBlank x = true) (r t : List Char) :
    StopsAs (r ++ x :: t) r := by
  constructor
  · cases r with
    | nil =>
      right
      rintro y hy
      rwa [← Option.some.inj hy]
    | cons y r => exact .inl rfl
  · rw [Piece.fraction_ne_nil, Piece.fraction_ne_nil]
    rintro ⟨d, ds, heq, hd⟩
    -- The blank is neither the point nor the digit, so both belong to `r`.
    match r, heq with
    | [], heq => exact absurd (List.cons.inj heq).1 (ne_of_isBlank hx (by decide))
    | [y], heq =>
      have hdx : x = d := (List.cons.inj (List.cons.inj heq).2).1
      rw [← hdx, isDigit_eq_false_of_isBlank hx] at hd
      cases hd
    | y :: z :: r, heq =>
      obtain ⟨rfl, rfl, -⟩ : y = '.' ∧ z = d ∧ r ++ x :: t = ds := by simpa using heq
      exact ⟨z, r, rfl, hd⟩

/-- A text that is empty or starts with a blank ends every piece. -/
theorem of_isBlank_head (h : ∀ x ∈ r.head?, isBlank x = true) (s : List Char) : StopsAs r s := by
  refine ⟨.inr h, ?_⟩
  intro hfraction
  -- A fraction starts with a point, which is no blank.
  obtain ⟨d, ds, rfl, -⟩ := Piece.fraction_ne_nil.1 hfraction
  have hpoint : isBlank '.' = true := h '.' rfl
  exact absurd hpoint (by decide)

/-- Whatever stands before both texts, a class without blanks that does not go on there with `s`
    does not go on with `r`. -/
theorem any_head? (h : StopsAs r s) (hp : ∀ x, isBlank x = true → p x = false) (v : List Char)
    (hs : (v ++ s).head?.any p = false) : (v ++ r).head?.any p = false := by
  cases v with
  | cons c v => exact hs
  | nil =>
    rw [List.nil_append] at hs ⊢
    rcases h.head with heq | hblank
    · rwa [heq]
    · cases hr : r.head? with
      | none => rfl
      | some x => exact hp x (hblank x hr)

/-- A text that stops alike begins with no character the other does not, blanks apart. -/
theorem head?_ne (h : StopsAs r s) {x : Char} (hx : isBlank x = false) (v : List Char)
    (hs : (v ++ s).head? ≠ some x) : (v ++ r).head? ≠ some x := by
  have hany : ∀ cs : List Char, cs.head?.any (· == x) = false ↔ cs.head? ≠ some x := by
    intro cs
    cases cs.head? <;> simp
  rw [← hany] at hs ⊢
  exact h.any_head? (fun y hy => by simpa using ne_of_isBlank hy hx) v hs

end StopsAs

/-! ## Runs -/

theorem takeWhile_eq_nil {r : List Char} : r.takeWhile p = [] ↔ r.head?.any p = false := by
  cases r with
  | nil => simp
  | cons x r =>
    rw [List.head?_cons, Option.any_some]
    cases hx : p x <;> simp [hx]

/-- A run is all of `v` if it holds of `v` and not of what comes next. -/
theorem takeWhile_append_eq_left :
    (v ++ r).takeWhile p = v ↔ (∀ c ∈ v, p c = true) ∧ r.head?.any p = false := by
  rw [← takeWhile_eq_nil]
  constructor
  · intro hv
    have hall : ∀ c ∈ v, p c = true := by
      intro c hc
      rw [← hv] at hc
      exact List.mem_takeWhile_imp hc
    rw [List.takeWhile_append_of_pos hall] at hv
    exact ⟨hall, List.append_right_eq_self.1 hv⟩
  · rintro ⟨hall, hr⟩
    rw [List.takeWhile_append_of_pos hall, hr, List.append_nil]

namespace StopsAs

/-- A run that ends before `s` ends before `r`. -/
theorem takeWhile_append (h : StopsAs r s) (hp : ∀ x, isBlank x = true → p x = false)
    (w : List Char) (hv : (v ++ (w ++ s)).takeWhile p = v) :
    (v ++ (w ++ r)).takeWhile p = v := by
  rw [takeWhile_append_eq_left] at hv ⊢
  exact ⟨hv.1, h.any_head? hp w hv.2⟩

end StopsAs

/-! ## Pieces

  A rule that ends its piece before `s` ends the same piece before `r`; one lemma for each rule. -/

namespace Piece

theorem fraction_append (h : StopsAs r s) (hv : fraction (v ++ s) = v) : fraction (v ++ r) = v := by
  by_cases hnil : v = []
  · subst hnil
    by_contra hne
    exact h.fraction hne hv
  · -- A point and digits, the last of which no other follows.
    have hne : fraction (v ++ s) ≠ [] := by rwa [hv]
    obtain ⟨d, ds, heq, hd⟩ := fraction_ne_nil.1 hne
    rw [heq, fraction_of_digit hd] at hv
    obtain ⟨run, rfl⟩ : ∃ run, v = '.' :: d :: run :=
      ⟨ds.takeWhile isDigit, by rw [← hv, List.takeWhile_cons_of_pos hd]⟩
    obtain rfl : run ++ s = ds := by simpa using heq
    have hrun : (d :: run ++ ([] ++ s)).takeWhile isDigit = d :: run := (List.cons.inj hv).2
    have hrun' := h.takeWhile_append (fun _ => isDigit_eq_false_of_isBlank) [] hrun
    rw [List.cons_append, List.cons_append, fraction_of_digit hd]
    exact congrArg ('.' :: ·) hrun'

/-- The digits and the fraction of a number that is all of `v`. -/
theorem exists_of_text_number {c : Char} (hv : (number c (v ++ s)).text = c :: v) :
    ∃ ds fs, v = ds ++ fs ∧ (ds ++ (fs ++ s)).takeWhile isDigit = ds ∧ fraction (fs ++ s) = fs := by
  have hparts : (v ++ s).takeWhile isDigit ++ fraction ((v ++ s).dropWhile isDigit) = v :=
    (List.cons.inj hv).2
  have hall := List.takeWhile_append_dropWhile (p := isDigit) (l := v ++ s)
  generalize hds : (v ++ s).takeWhile isDigit = ds at hparts hall
  generalize hfs : fraction ((v ++ s).dropWhile isDigit) = fs at hparts
  -- Behind the digits stand the fraction and then `s`.
  have hbehind : ds ++ (v ++ s).dropWhile isDigit = ds ++ (fs ++ s) := by
    rw [hall, ← List.append_assoc, hparts]
  have hdrop : (v ++ s).dropWhile isDigit = fs ++ s := List.append_cancel_left hbehind
  refine ⟨ds, fs, hparts.symm, ?_, ?_⟩
  · rw [← List.append_assoc, hparts, hds]
  · rw [← hdrop, hfs]

theorem number_of_run {c : Char} {ds fs : List Char}
    (hds : (ds ++ (fs ++ r)).takeWhile isDigit = ds) (hfs : fraction (fs ++ r) = fs) :
    number c (ds ++ fs ++ r) = ⟨.ok .number, c :: (ds ++ fs)⟩ := by
  have hall := List.takeWhile_append_dropWhile (p := isDigit) (l := ds ++ (fs ++ r))
  rw [hds] at hall
  rw [number, List.append_assoc, hds, List.append_cancel_left hall, hfs]

/-- A number that ends in front of one text ends in front of any that stops alike. -/
theorem number_append (h : StopsAs r s) {c : Char} (hv : (number c (v ++ s)).text = c :: v) :
    number c (v ++ r) = number c (v ++ s) := by
  obtain ⟨ds, fs, rfl, hds, hfs⟩ := exists_of_text_number hv
  have hds' := h.takeWhile_append (fun _ => isDigit_eq_false_of_isBlank) fs hds
  rw [number_of_run hds hfs, number_of_run hds' (fraction_append h hfs)]

theorem word_append (h : StopsAs r s) {c : Char} (hv : (word c (v ++ s)).text = c :: v) :
    word c (v ++ r) = word c (v ++ s) := by
  have hrun : (v ++ ([] ++ s)).takeWhile isWordPart = v := (List.cons.inj hv).2
  have hrun' := h.takeWhile_append (fun _ => isWordPart_eq_false_of_isBlank) [] hrun
  rw [List.nil_append] at hrun hrun'
  rw [word, word, hrun, hrun']

/-- A string with its closing quote is the same whatever stands behind it. -/
theorem string_append (r : List Char)
    (hopen : (string (v ++ s)).outcome ≠ .error .unterminatedString)
    (hv : (string (v ++ s)).text = '"' :: v) : string (v ++ r) = string (v ++ s) := by
  -- A string that is closed is told by its own text: no rest in front of it matters.
  cases hrest : (v ++ s).dropWhile (· ≠ '"') with
  | nil =>
    rw [string_of_open hrest] at hopen
    exact absurd rfl hopen
  | cons quote rest =>
    rw [string_of_closed hrest, dropWhile_quote hrest] at hv
    have hmem : '"' :: v ∈ Grammar.string := by
      refine Grammar.mem_string.2 ⟨_, hv.symm, ?_⟩
      intro c hc
      simpa using List.mem_takeWhile_imp hc
    have hr := eq_string hmem r
    have hs := eq_string hmem s
    rw [List.cons_append, next, first_quote] at hr hs
    rw [hr, hs]

theorem operator_append (h : StopsAs r s) {c : Char} {alone withEqual : Kind}
    (hv : (operator c alone withEqual (v ++ s)).text = c :: v) :
    operator c alone withEqual (v ++ r) = operator c alone withEqual (v ++ s) := by
  cases v with
  | cons x v => rfl
  | nil =>
    -- The operator stands alone, so `s` does not start with the sign, nor does `r`.
    have hs : s.head? ≠ some '=' := by
      intro heq
      rw [List.nil_append, operator, if_pos heq] at hv
      cases hv
    have hr : r.head? ≠ some '=' := h.head?_ne (by decide) [] hs
    rw [List.nil_append, List.nil_append, operator, operator, if_neg hs, if_neg hr]

/-- The first piece stays the same when what stands behind it ends it as before. -/
theorem first_append (h : StopsAs r s) {c : Char}
    (hopen : (first c (v ++ s)).outcome ≠ .error .unterminatedString)
    (hv : (first c (v ++ s)).text = c :: v) : first c (v ++ r) = first c (v ++ s) := by
  -- The first character chooses the same rule for both texts.
  unfold first at hopen hv ⊢
  by_cases hdigit : isDigit c
  · rw [if_pos hdigit] at hv ⊢
    rw [if_pos hdigit]
    exact number_append h hv
  · rw [if_neg hdigit] at hopen hv ⊢
    rw [if_neg hdigit]
    by_cases hword : isWordStart c
    · rw [if_pos hword] at hv ⊢
      rw [if_pos hword]
      exact word_append h hv
    · rw [if_neg hword] at hopen hv ⊢
      rw [if_neg hword]
      by_cases hquote : c = '"'
      · subst hquote
        rw [if_pos rfl] at hopen hv ⊢
        rw [if_pos rfl]
        exact string_append r hopen hv
      · rw [if_neg hquote] at hv ⊢
        rw [if_neg hquote]
        unfold symbol at hv ⊢
        cases hoperator : Symbol.operator? c with
        | some kinds =>
          rw [hoperator] at hv
          exact operator_append h hv
        | none => rfl

/-- The piece that stands before `s` stands before `r`. -/
theorem next_append (h : StopsAs r s) {p : Piece} (hp : next (p.text ++ s) = p)
    (hne : p.text ≠ []) (hopen : p.outcome ≠ .error .unterminatedString) :
    next (p.text ++ r) = p := by
  cases htext : p.text with
  | nil => exact absurd htext hne
  | cons c v =>
    rw [htext, List.cons_append, next] at hp
    rw [List.cons_append, next, first_append h (by rwa [hp]) (by rw [hp, htext]), hp]

end Piece

/-! ## Trivia -/

namespace Trivia

/-- Behind trivia it only matters whether they end inside a comment. -/
theorem exists_leading_append {inComment : Bool} {gap : List Char}
    (h : leading inComment gap = gap) :
    ∃ inside, ∀ cs, leading inComment (gap ++ cs) = gap ++ leading inside cs := by
  -- Each character is read as it was, and leaves the comment open or not as it did.
  induction gap generalizing inComment with
  | nil => exact ⟨inComment, fun cs => rfl⟩
  | cons c gap ih =>
    rw [leading] at h
    split at h
    next hcomment =>
      obtain ⟨inside, hinside⟩ := ih (List.cons.inj h).2
      refine ⟨inside, fun cs => ?_⟩
      rw [List.cons_append, leading, if_pos hcomment, hinside, List.cons_append]
    next hcomment =>
      split at h
      next hblank =>
        obtain ⟨inside, hinside⟩ := ih (List.cons.inj h).2
        refine ⟨inside, fun cs => ?_⟩
        rw [List.cons_append, leading, if_neg hcomment, if_pos hblank, hinside, List.cons_append]
      next hblank =>
        split at h
        next hslash =>
          -- The second slash belongs to the trivia, so what is appended cannot undo the comment.
          obtain ⟨inside, hinside⟩ := ih (List.cons.inj h).2
          obtain ⟨gap', rfl⟩ := List.head?_eq_some_iff.1 hslash.2
          refine ⟨inside, fun cs => ?_⟩
          rw [List.cons_append, leading, if_neg hcomment, if_neg hblank, if_pos ⟨hslash.1, rfl⟩,
            hinside]
          rfl
        · cases h

/-- The leading trivia of a text are trivia all through. -/
theorem leading_leading (cs : List Char) : leading false (leading false cs) = leading false cs := by
  have hfront := isPrefix_leading_of_mem (leading_mem_trivia cs) []
  rw [List.append_nil] at hfront
  exact (isPrefix_leading false _).eq_of_length_le hfront.length_le

/-- Where the leading trivia end before a character, they do not end inside a comment. -/
theorem leading_append {cs : List Char} (h : rest cs ≠ []) (r : List Char) :
    leading false (leading false cs ++ r) = leading false cs ++ leading false r := by
  obtain ⟨inside, hinside⟩ := exists_leading_append (leading_leading cs)
  have hnil : leading inside (rest cs) = [] := by
    have happend := hinside (rest cs)
    rw [leading_append_rest] at happend
    exact List.append_right_eq_self.1 happend.symm
  -- Were the trivia to end inside a comment, the comment would go on.
  cases inside with
  | false => exact hinside r
  | true =>
    obtain ⟨c, r', hrest⟩ := List.exists_cons_of_ne_nil h
    rw [hrest, leading, if_pos rfl] at hnil
    cases hnil

theorem leading_rest (cs : List Char) : leading false (rest cs) = [] := by
  by_cases h : rest cs = []
  · rw [h, leading]
  · have happend := leading_append h (rest cs)
    rw [leading_append_rest] at happend
    exact List.append_right_eq_self.1 happend.symm

/-- A text that starts with no trivia starts with none when its end is put in place as before. -/
theorem leading_eq_nil_append (h : StopsAs r s) (hne : v ≠ []) (hv : leading false (v ++ s) = []) :
    leading false (v ++ r) = [] := by
  obtain ⟨c, v, rfl⟩ := List.exists_cons_of_ne_nil hne
  rw [List.cons_append, leading, if_neg Bool.false_ne_true] at hv
  split at hv
  · cases hv
  next hblank =>
    split at hv
    · cases hv
    next hslash =>
      apply leading_of_slash (by simpa using hblank)
      rintro ⟨rfl, hr⟩
      -- A second slash behind the first would stand there with `s` as well.
      exact h.head?_ne (by decide) v (fun hs => hslash ⟨rfl, hs⟩) hr

end Trivia

/-! ## Items -/

namespace Item

theorem piece_text_append_rest (cs : List Char) :
    (first cs).piece.text ++ rest cs = Trivia.rest cs := by
  have hall := text_append_rest cs
  have hgap : (first cs).gap ++ Trivia.rest cs = cs := Trivia.leading_append_rest cs
  rw [text, List.append_assoc] at hall
  exact List.append_cancel_left (hall.trans hgap.symm)

/-- The first item of a text stays the same when what stands behind it ends it as before. -/
theorem first_append {cs : List Char} (h : StopsAs r (rest cs))
    (hne : (first cs).piece.text ≠ [])
    (hopen : (first cs).piece.outcome ≠ .error .unterminatedString) :
    first ((first cs).text ++ r) = first cs := by
  have hrest := piece_text_append_rest cs
  have hbehind : Trivia.rest cs ≠ [] := fun hnil => hne (Piece.text_next_eq_nil.2 hnil)
  -- The gap ends where it did, since no trivia start at the piece.
  have hnil : Trivia.leading false ((first cs).piece.text ++ r) = [] := by
    apply Trivia.leading_eq_nil_append h hne
    rw [hrest, Trivia.leading_rest]
  have hgap : Trivia.leading false ((first cs).text ++ r) = (first cs).gap := by
    rw [text, List.append_assoc]
    have happend := Trivia.leading_append hbehind ((first cs).piece.text ++ r)
    rwa [hnil, List.append_nil] at happend
  have hpiece : Trivia.rest ((first cs).text ++ r) = (first cs).piece.text ++ r := by
    rw [Trivia.rest, hgap, text, List.append_assoc, List.drop_left]
  -- The piece ends where it did.
  have hnext : Piece.next ((first cs).piece.text ++ rest cs) = (first cs).piece := by
    rw [hrest]
    rfl
  rw [first, hgap, hpiece, Piece.next_append h hnext hne hopen]

/-- What stands behind the first item is what was put there. -/
theorem rest_append {cs : List Char} (h : first ((first cs).text ++ r) = first cs) :
    rest ((first cs).text ++ r) = r := by
  rw [rest, h, List.drop_left]

end Item

/-- An item that is closed is the first item in front of any text that stops alike. -/
theorem items_append {cs : List Char} (h : StopsAs r (Item.rest cs))
    (hne : (Item.first cs).piece.text ≠ [])
    (hopen : (Item.first cs).piece.outcome ≠ .error .unterminatedString) :
    items ((Item.first cs).text ++ r) = Item.first cs :: items r := by
  have hfirst := Item.first_append h hne hopen
  rw [items_of_piece (by rwa [hfirst]), hfirst, Item.rest_append hfirst]

/-- A string without an end has nothing behind it. -/
theorem Item.outcome_ne_unterminated {cs : List Char} (h : rest cs ≠ []) :
    (first cs).piece.outcome ≠ .error .unterminatedString := by
  intro hopen
  -- The text of such a string is all that is left, so nothing is behind it.
  have hall := piece_text_append_rest cs
  cases hrest : Trivia.rest cs with
  | nil =>
    rw [first, hrest] at hopen
    cases hopen
  | cons c r =>
    rw [first, hrest] at hopen
    obtain ⟨-, -, htext⟩ := Piece.first_of_unterminated hopen
    have hpiece : (first cs).piece.text = c :: r := by rwa [first, hrest]
    rw [hpiece, hrest] at hall
    exact h (List.append_right_eq_self.1 hall)

namespace Item

/-- Behind its gap a text starts with the piece of its first item. -/
theorem first_trivia_rest (cs : List Char) :
    first (Trivia.rest cs) = ⟨[], (first cs).piece⟩ := by
  have hgap : Trivia.leading false (Trivia.rest cs) = [] := Trivia.leading_rest cs
  have hbehind : Trivia.rest (Trivia.rest cs) = Trivia.rest cs := by
    rw [Trivia.rest, hgap, List.length_nil, List.drop_zero]
  rw [first, hgap, hbehind]
  rfl

theorem rest_trivia_rest (cs : List Char) : rest (Trivia.rest cs) = rest cs := by
  have hpiece := piece_text_append_rest cs
  have hall := text_append_rest (Trivia.rest cs)
  rw [first_trivia_rest, text, List.nil_append, ← hpiece] at hall
  rw [← hpiece]
  exact List.append_cancel_left hall

end Item

/-- A piece before a text that ends it as before is an item without a gap. Only an open string must
    have nothing behind it. -/
theorem items_piece_append {cs : List Char} (h : StopsAs r (Item.rest cs))
    (hne : (Item.first cs).piece.text ≠ [])
    (hopen : (Item.first cs).piece.outcome = .error .unterminatedString → r = []) :
    items ((Item.first cs).piece.text ++ r) = ⟨[], (Item.first cs).piece⟩ :: items r := by
  have hfirst := Item.first_trivia_rest cs
  have hrest := Item.rest_trivia_rest cs
  by_cases houtcome : (Item.first cs).piece.outcome = .error .unterminatedString
  · -- Nothing stood behind the string before.
    have hbehind : Item.rest cs = [] := by
      by_contra hne'
      exact Item.outcome_ne_unterminated hne' houtcome
    have hr : r = Item.rest cs := by rw [hopen houtcome, hbehind]
    rw [hr, Item.piece_text_append_rest, items_of_piece (by rwa [hfirst]), hfirst, hrest]
  · have hitems : items ((Item.first (Trivia.rest cs)).text ++ r) =
        Item.first (Trivia.rest cs) :: items r :=
      items_append (by rwa [hrest]) (by rwa [hfirst]) (by rwa [hfirst])
    rwa [hfirst] at hitems

/-! ## Appending to a source -/

/-- Items with two characters behind them are items of every text that goes on further. -/
theorem isPrefix_items_append {cs : List Char} {front back : List Item}
    (hitems : items cs = front ++ back) (h : 2 ≤ (back.flatMap Item.text).length)
    (t : List Char) : front <+: items (cs ++ t) := by
  -- On the items in front; two characters behind all of them are behind each.
  induction front generalizing cs with
  | nil => exact List.nil_prefix
  | cons item front ih =>
    by_cases hlast : (Item.first cs).piece.text = []
    · -- The last item has no other behind it, and so no character.
      rw [items_of_last hlast] at hitems
      have hback : front ++ back = [] := (List.cons.inj hitems).2.symm
      rw [(List.append_eq_nil_iff.1 hback).2] at h
      exact absurd h (by decide)
    · rw [items_of_piece hlast, List.cons_append, List.cons.injEq] at hitems
      obtain ⟨rfl, hrest⟩ := hitems
      have htext : 2 ≤ (Item.rest cs).length := by
        rw [← flatMap_text_items (Item.rest cs), hrest, List.flatMap_append, List.length_append]
        omega
      have hne : Item.rest cs ≠ [] := by
        intro hnil
        rw [hnil] at htext
        exact absurd htext (by decide)
      -- The text that is put behind goes to the rest.
      have hcs : cs ++ t = (Item.first cs).text ++ (Item.rest cs ++ t) := by
        rw [← List.append_assoc, Item.text_append_rest]
      rw [hcs, items_append (.append_of_two_le htext t) hlast (Item.outcome_ne_unterminated hne)]
      exact List.prefix_cons_inj _ |>.2 (ih hrest)

/-- A beginning of the items gives a beginning of the tokens. -/
theorem isPrefix_tokensAfter {front its : List Item} (h : front <+: its) (u : List Char) :
    tokensAfter u front <+: tokensAfter u its := by
  obtain ⟨back, rfl⟩ := h
  induction front generalizing u with
  | nil => exact List.nil_prefix
  | cons item front ih => exact List.prefix_cons_inj _ |>.2 (ih _)

/-- What the first items take up and what the others do are the text. -/
theorem taken_append_flatMap (cs : List Char) (k : Nat) :
    taken cs k ++ ((items cs).drop k).flatMap Item.text = cs := by
  rw [taken, ← List.flatMap_append, List.take_append_drop, flatMap_text_items]

/-- A token behind which two characters stand is the same in every source that goes on further. -/
theorem getElem?_tokens_append {a b : String} {k : Nat} {t : Token} {rest : List Char}
    (ht : (tokens a)[k]? = some t) (hrest : dropBytes? a.toList t.span.stop = some rest)
    (h : 2 ≤ rest.length) : (tokens (a ++ b))[k]? = some t := by
  have hk : k < (items a.toList).length := by
    rw [← length_tokens]
    exact (List.getElem?_eq_some_iff.1 ht).1
  -- What is left behind the token is the text of the items behind its own.
  have hstop : t.span.stop = byteSize (taken a.toList (k + 1)) := by
    rw [getElem_tokens hk, Option.some.injEq] at ht
    rw [← ht, Item.span_token, taken_succ hk]
  have hdrop := dropBytes?_append (taken a.toList (k + 1))
    (((items a.toList).drop (k + 1)).flatMap Item.text)
  rw [taken_append_flatMap, ← hstop, hrest, Option.some.injEq] at hdrop
  rw [hdrop] at h
  -- The items up to that of the token are there in both sources.
  have hfront := isPrefix_items_append (List.take_append_drop (k + 1) _).symm h b.toList
  have hlength : k < (tokensAfter [] ((items a.toList).take (k + 1))).length := by
    rw [length_tokensAfter, List.length_take]
    omega
  have hleft := List.prefix_iff_getElem?.1
    (isPrefix_tokensAfter (List.take_prefix (k + 1) (items a.toList)) []) k hlength
  have hright := List.prefix_iff_getElem?.1 (isPrefix_tokensAfter hfront []) k hlength
  rw [tokens] at ht ⊢
  rw [String.toList_append, hright, ← hleft, ht]

/-- Appending to a source changes no token behind which two characters stand: neither its kind, its
    lexeme, its line nor its span. -/
theorem tokenize_append {a b : String} (h : Scannable (a ++ b)) :
    ∃ ts ts', tokenize a = .ok ts ∧ tokenize (a ++ b) = .ok ts' ∧
      ∀ (k : Nat) (t : Token) (rest : List Char), ts[k]? = some t →
        dropBytes? a.toList t.span.stop = some rest → 2 ≤ rest.length → ts'[k]? = some t := by
  have ha : Scannable a := by
    apply h.part (u := []) (r := b.toList)
    rw [List.nil_append, String.toList_append]
  exact ⟨tokens a, tokens (a ++ b), tokenize_of_scannable ha, tokenize_of_scannable h,
    fun _ _ _ => getElem?_tokens_append⟩

/-- A number with one character behind it does change, the token before it does not. -/
theorem tokenize_append_point :
    Scannable ("(3." ++ "14") ∧
      tokenize "(3." = .ok [⟨.leftParen, "(", 1, ⟨0, 1⟩⟩, ⟨.number, "3", 1, ⟨1, 2⟩⟩,
        ⟨.dot, ".", 1, ⟨2, 3⟩⟩, ⟨.eof, "", 1, ⟨3, 3⟩⟩] ∧
      dropBytes? "(3.".toList 1 = some ['3', '.'] ∧
      ∃ ts', tokenize ("(3." ++ "14") = .ok ts' ∧
        ts'[0]? = some ⟨.leftParen, "(", 1, ⟨0, 1⟩⟩ ∧
        ts'[1]? = some ⟨.number, "3.14", 1, ⟨1, 5⟩⟩ := by
  have h : Scannable ("(3." ++ "14") := ⟨by decide, by decide⟩
  obtain ⟨ts, ts', hts, hts', htokens⟩ := tokenize_append h
  have hleft : tokenize "(3." = .ok [⟨.leftParen, "(", 1, ⟨0, 1⟩⟩, ⟨.number, "3", 1, ⟨1, 2⟩⟩,
      ⟨.dot, ".", 1, ⟨2, 3⟩⟩, ⟨.eof, "", 1, ⟨3, 3⟩⟩] := by
    decide +kernel
  have hright : (tokenize ("(3." ++ "14")).map (·[1]?) =
      .ok (some ⟨.number, "3.14", 1, ⟨1, 5⟩⟩) := by
    decide +kernel
  have hdrop : dropBytes? "(3.".toList 1 = some ['3', '.'] := by decide
  rw [hleft, Except.ok.injEq] at hts
  rw [hts', Fault.map_ok, Except.ok.injEq] at hright
  subst hts
  exact ⟨h, hleft, hdrop, ts', hts', htokens 0 _ _ rfl hdrop (by decide), hright⟩

end Lexis

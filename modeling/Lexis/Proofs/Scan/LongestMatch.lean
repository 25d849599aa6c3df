/-
  Lexis.Proofs.Scan.LongestMatch

  Scanning is longest match.

  `Munch` cuts a text by the languages of trivia and tokens alone: the longest trivia go first, then
  the longest text of a token, and an error stands where no token starts. The scanner looks one or
  two characters ahead instead; that this always comes to the same cut is shown for the leading
  trivia, for one piece, and from both for all items of a text.
-/

import Lexis.Proofs.Scan.Draw
import Lexis.Proofs.Scan.Grammar
import Mathlib.Data.List.TakeWhile

namespace Lexis

open Computability
open Lexis.Grammar Lexis.Text

/-- A text is the longest of a language that another text starts with. -/
structure Longest (l : Language Char) (text w : List Char) : Prop where
  mem : w ∈ l
  isPrefix : w <+: text
  isPrefix_of_mem : ∀ v ∈ l, v <+: text → v.length ≤ w.length

/-- A text has one longest prefix in a language at most. -/
theorem Longest.unique {l : Language Char} {text v w : List Char} (hv : Longest l text v)
    (hw : Longest l text w) : v = w := by
  -- Each is no longer than the other, and both are beginnings of one text.
  have hle : v.length ≤ w.length := hw.isPrefix_of_mem v hv.mem hv.isPrefix
  have hge : w.length ≤ v.length := hv.isPrefix_of_mem w hw.mem hw.isPrefix
  have hfront : v <+: w := List.prefix_of_prefix_length_le hv.isPrefix hw.isPrefix hle
  exact hfront.eq_of_length (Nat.le_antisymm hle hge)

/-- What stands at the front of a text that starts with no trivia, and what is left behind it. -/
inductive Takes : List Char → Kind × String → List Char → Prop where
  /-- The longest token. -/
  | token {w r : List Char} {kind : Kind} (hw : Longest tokenText (w ++ r) w)
      (hkind : IsToken kind w) : Takes (w ++ r) (kind, String.ofList w) r
  /-- A quote that starts no token: an error that takes all the rest. -/
  | unterminated {r : List Char} (h : ∀ w ∈ tokenText, w <+: '"' :: r → w = []) :
      Takes ('"' :: r) (.error, "Unterminated string.") []
  /-- Another character that starts no token: an error that takes it alone. -/
  | unexpected {c : Char} {r : List Char} (h : ∀ w ∈ tokenText, w <+: c :: r → w = [])
      (hc : c ≠ '"') : Takes (c :: r) (.error, "Unexpected character.") r

/-- The kinds and lexemes of a text cut by longest match. -/
inductive Munch : List Char → List (Kind × String) → Prop where
  /-- All that is left is trivia. -/
  | eof {text : List Char} (h : Longest trivia text text) : Munch text [(.eof, "")]
  /-- The longest trivia go, and one piece is taken from a text that is not empty. -/
  | next {gap r r' : List Char} {label : Kind × String} {labels : List (Kind × String)}
      (hgap : Longest trivia (gap ++ r) gap) (hr : r ≠ []) (htakes : Takes r label r')
      (hrest : Munch r' labels) : Munch (gap ++ r) (label :: labels)

/-! ## Trivia -/

namespace Trivia

theorem leading_mem_trivia (cs : List Char) : leading false cs ∈ trivia := by
  -- A comment is one word of the language, so the induction is on the length of the text.
  induction hn : cs.length using Nat.strongRecOn generalizing cs with
  | ind n ih =>
    cases cs with
    | nil => exact Language.nil_mem_kstar _
    | cons c cs =>
      by_cases hblank : isBlank c
      · rw [leading_blank hblank]
        have hword : [c] ∈ blank + comment :=
          (Language.mem_add _ _ _).2 (.inl (mem_blank.2 ⟨c, hblank, rfl⟩))
        exact cons_mem_kstar hword (ih cs.length (by simp [← hn]) cs rfl)
      · by_cases hslash : c = '/' ∧ cs.head? = some '/'
        · obtain ⟨rfl, hhead⟩ := hslash
          obtain ⟨cs, rfl⟩ := List.head?_eq_some_iff.1 hhead
          have hbody : ∀ d ∈ cs.takeWhile (· ≠ '\n'), d ≠ '\n' := by
            intro d hd
            simpa using List.mem_takeWhile_imp hd
          have hword : '/' :: '/' :: cs.takeWhile (· ≠ '\n') ∈ blank + comment :=
            (Language.mem_add _ _ _).2 (.inr (mem_comment.2 ⟨_, hbody, rfl⟩))
          have hshort : (cs.dropWhile (· ≠ '\n')).length < n := by
            have hle := (List.dropWhile_suffix (l := cs) (· ≠ '\n')).length_le
            rw [← hn, List.length_cons, List.length_cons]
            omega
          rw [leading_comment]
          exact cons_mem_kstar hword (ih _ hshort _ rfl)
        · rw [leading_of_slash (by simpa using hblank) hslash]
          exact Language.nil_mem_kstar _

/-- Inside a comment no less is read than outside. -/
theorem leading_false_isPrefix (cs : List Char) : leading false cs <+: leading true cs := by
  induction cs with
  | nil => exact List.prefix_refl _
  | cons c cs ih =>
    by_cases hblank : isBlank c
    · rw [leading_blank hblank, leading, if_pos rfl]
      refine List.prefix_cons_inj _ |>.2 ?_
      -- The comment of the right side ends at a line feed; elsewhere both sides go on alike.
      by_cases hc : c = '\n'
      · simp [hc]
      · simpa [hc] using ih
    -- Two slashes begin the comment that the right side is in already.
    · by_cases hslash : c = '/' ∧ cs.head? = some '/'
      · have hc : c ≠ '\n' := by
          rw [hslash.1]
          decide
        have hfalse : leading false (c :: cs) = c :: leading true cs := by
          rw [leading, if_neg (by decide), if_neg hblank, if_pos hslash]
        have htrue : leading true (c :: cs) = c :: leading true cs := by
          rw [leading, if_pos rfl, decide_eq_true hc]
        rw [hfalse, htrue]
      · rw [leading_of_slash (by simpa using hblank) hslash]
        exact List.nil_prefix

theorem leading_true_append {body : List Char} (h : ∀ c ∈ body, c ≠ '\n') (cs : List Char) :
    leading true (body ++ cs) = body ++ leading true cs := by
  induction body with
  | nil => rfl
  | cons c body ih =>
    obtain ⟨hc, hbody⟩ := List.forall_mem_cons.1 h
    rw [List.cons_append, leading, if_pos rfl, decide_eq_true hc, ih hbody, List.cons_append]

/-- Trivia at the front of a text are no longer than the leading trivia. -/
theorem isPrefix_leading_of_mem {v : List Char} (hv : v ∈ trivia) (cs : List Char) :
    v <+: leading false (v ++ cs) := by
  obtain ⟨ws, rfl, hws⟩ := Language.mem_kstar.1 hv
  clear hv
  induction ws with
  | nil => exact List.nil_prefix
  | cons w ws ih =>
    obtain ⟨hw, hws⟩ := List.forall_mem_cons.1 hws
    have hfront := ih hws
    rw [List.flatten_cons]
    rcases (Language.mem_add _ _ _).1 hw with hblank | hcomment
    · obtain ⟨c, hc, rfl⟩ := mem_blank.1 hblank
      rw [List.singleton_append, List.cons_append, leading_blank hc]
      exact List.prefix_cons_inj _ |>.2 hfront
    · -- Behind the body the text may go on inside the comment, which only reads more.
      obtain ⟨body, hbody, rfl⟩ := mem_comment.1 hcomment
      have hleading : leading false ('/' :: '/' :: body ++ ws.flatten ++ cs) =
          '/' :: '/' :: (body ++ leading true (ws.flatten ++ cs)) := by
        rw [← leading_true_append hbody]
        simp [leading, isBlank]
      rw [hleading]
      refine List.prefix_cons_inj _ |>.2 (List.prefix_cons_inj _ |>.2 ?_)
      exact List.prefix_append_right_inj _ |>.2 (hfront.trans (leading_false_isPrefix _))

/-- The leading trivia are the longest trivia. -/
theorem longest_leading (cs : List Char) : Longest trivia cs (leading false cs) where
  mem := leading_mem_trivia cs
  isPrefix := isPrefix_leading false cs
  isPrefix_of_mem := by
    rintro v hv ⟨r, rfl⟩
    exact (isPrefix_leading_of_mem hv r).length_le

end Trivia

/-! ## Pieces -/

namespace Piece

theorem mem_symbols_of_single? {c : Char} {kind : Kind} (h : Symbol.single? c = some kind) :
    (String.ofList [c], kind) ∈ symbols := by
  unfold Symbol.single? at h
  split at h <;> cases h <;> decide

theorem mem_symbols_of_operator? {c : Char} {alone withEqual : Kind}
    (h : Symbol.operator? c = some (alone, withEqual)) :
    (String.ofList [c], alone) ∈ symbols ∧ (String.ofList [c, '='], withEqual) ∈ symbols := by
  unfold Symbol.operator? at h
  split at h <;> cases h <;> decide

/-- The table of symbols lists no more than the rules for symbols know. -/
theorem of_mem_symbols {s : String} {kind : Kind} (h : (s, kind) ∈ symbols) :
    (∃ c, s.toList = [c] ∧ Symbol.single? c = some kind) ∨
      ∃ c alone withEqual, Symbol.operator? c = some (alone, withEqual) ∧
        (s.toList = [c] ∧ kind = alone ∨ s.toList = [c, '='] ∧ kind = withEqual) := by
  have hall : ∀ entry ∈ symbols,
      (∃ c, entry.1.toList = [c] ∧ Symbol.single? c = some entry.2) ∨
        ∃ c alone withEqual, Symbol.operator? c = some (alone, withEqual) ∧
          (entry.1.toList = [c] ∧ entry.2 = alone ∨
            entry.1.toList = [c, '='] ∧ entry.2 = withEqual) := by
    -- One case for each row of the table: a symbol alone, or an operator in either form.
    simp only [symbols, List.forall_mem_cons]
    and_intros
    all_goals first
      | exact .inl ⟨_, rfl, rfl⟩
      | exact .inr ⟨_, _, _, rfl, .inl ⟨rfl, rfl⟩⟩
      | exact .inr ⟨_, _, _, rfl, .inr ⟨rfl, rfl⟩⟩
      | simp
  exact hall _ h

/-- A fraction is empty, or a point and digits. -/
theorem fraction_cases (cs : List Char) :
    fraction cs = [] ∨ ∃ es, fraction cs = '.' :: es ∧ es ∈ digit * digit∗ := by
  unfold fraction
  split
  next d cs =>
    by_cases hd : isDigit d = true
    · rw [if_pos hd]
      refine .inr ⟨_, rfl, mem_digits.2 ⟨d, _, rfl, ?_⟩⟩
      exact List.forall_mem_cons.2 ⟨hd, fun e he => List.mem_takeWhile_imp he⟩
    · rw [if_neg hd]
      exact .inl rfl
  · exact .inl rfl

/-- A quote that ends a run of other characters. -/
theorem dropWhile_quote {cs rest : List Char} {quote : Char}
    (h : cs.dropWhile (· ≠ '"') = quote :: rest) : quote = '"' := by
  have hnot := List.head?_dropWhile_not (· ≠ '"') cs
  rw [h] at hnot
  simpa using hnot

theorem isToken_of_outcome_string {cs : List Char} {kind : Kind}
    (h : (string cs).outcome = .ok kind) : IsToken kind (string cs).text := by
  cases hrest : cs.dropWhile (· ≠ '"') with
  | nil =>
    rw [string_of_open hrest] at h
    cases h
  | cons quote rest =>
    rw [string_of_closed hrest, dropWhile_quote hrest] at h ⊢
    cases h
    refine .string (mem_string.2 ⟨_, rfl, ?_⟩)
    intro d hd
    simpa using List.mem_takeWhile_imp hd

theorem isToken_of_outcome_operator {c : Char} {cs : List Char} {alone withEqual kind : Kind}
    (hoperator : Symbol.operator? c = some (alone, withEqual))
    (h : (operator c alone withEqual cs).outcome = .ok kind) :
    IsToken kind (operator c alone withEqual cs).text := by
  obtain ⟨halone, hequal⟩ := mem_symbols_of_operator? hoperator
  unfold operator at h ⊢
  split at h
  next hhead =>
    cases h
    rw [if_pos hhead]
    simpa using IsToken.symbol hequal
  next hhead =>
    cases h
    rw [if_neg hhead]
    simpa using IsToken.symbol halone

/-- A piece that is no error is a token of its kind. -/
theorem isToken_of_outcome_first {c : Char} {cs : List Char} {kind : Kind} :
    (first c cs).outcome = .ok kind → IsToken kind (first c cs).text := by
  apply first_cases (motive := fun p => p.outcome = .ok kind → IsToken kind p.text)
  case number =>
    rintro hc ⟨⟩
    have hdigits : c :: cs.takeWhile isDigit ∈ digit * digit∗ :=
      mem_digits.2 ⟨c, _, rfl, List.forall_mem_cons.2 ⟨hc, fun d => List.mem_takeWhile_imp⟩⟩
    exact .number (mem_number.2 ⟨_, _, rfl, hdigits, fraction_cases _⟩)
  case word =>
    rintro hc ⟨⟩
    exact .word (mem_word.2 ⟨c, _, rfl, hc, fun d => List.mem_takeWhile_imp⟩)
  case string => exact fun _ => isToken_of_outcome_string
  case operator => exact fun _ _ => isToken_of_outcome_operator
  case single =>
    rintro k hsingle ⟨⟩
    simpa using IsToken.symbol (mem_symbols_of_single? hsingle)
  case unexpected =>
    rintro - ⟨⟩

/-- The number rule takes at least as much as any number that stands there. -/
theorem isPrefix_number {v : List Char} (hv : v ∈ Grammar.number) (r : List Char) :
    (next (v ++ r)).outcome = .ok .number ∧ v <+: (next (v ++ r)).text := by
  obtain ⟨ds, fs, rfl, hds, hfs⟩ := mem_number.1 hv
  obtain ⟨c, ds, rfl, hdigits⟩ := mem_digits.1 hds
  obtain ⟨hc, htail⟩ := List.forall_mem_cons.1 hdigits
  have hnext : next (c :: ds ++ fs ++ r) = number c (ds ++ (fs ++ r)) := by
    rw [List.append_assoc, List.cons_append, next, first_of_digit hc]
  rw [hnext]
  refine ⟨rfl, List.prefix_cons_inj _ |>.2 ?_⟩
  -- The rule reads past the digits of the number; behind them it is the fraction that counts.
  rw [List.takeWhile_append_of_pos htail, List.dropWhile_append_of_pos htail, List.append_assoc]
  refine List.prefix_append_right_inj _ |>.2 ?_
  rcases hfs with rfl | ⟨es, rfl, hes⟩
  · exact List.nil_prefix
  · -- A digit follows the point, so the rule takes the point as well.
    obtain ⟨e, es, rfl, hdigits⟩ := mem_digits.1 hes
    have he : isDigit e = true := hdigits e List.mem_cons_self
    have hfraction :
        fraction ('.' :: (e :: es ++ r)) = '.' :: (e :: es ++ r.takeWhile isDigit) := by
      rw [List.cons_append, fraction_of_digit he, ← List.cons_append,
        List.takeWhile_append_of_pos hdigits]
    rw [List.cons_append, List.takeWhile_cons_of_neg (by decide),
      List.dropWhile_cons_of_neg (by decide), hfraction, List.nil_append]
    exact List.prefix_cons_inj _ |>.2 (List.prefix_append _ _)

/-- The word rule takes at least as much as any word that stands there. -/
theorem isPrefix_word {v : List Char} (hv : v ∈ Grammar.word) (r : List Char) :
    (next (v ++ r)).outcome =
        .ok ((Keyword.ofWord? (String.ofList (next (v ++ r)).text)).getD .identifier) ∧
      v <+: (next (v ++ r)).text := by
  obtain ⟨c, cs, rfl, hc, hcs⟩ := mem_word.1 hv
  rw [List.cons_append, next, first_of_wordStart hc]
  refine ⟨rfl, List.prefix_cons_inj _ |>.2 ?_⟩
  rw [List.takeWhile_append_of_pos hcs]
  exact List.prefix_append _ _

/-- The string rule takes just the string that stands there. -/
theorem eq_string {v : List Char} (hv : v ∈ Grammar.string) (r : List Char) :
    next (v ++ r) = ⟨.ok .string, v⟩ := by
  obtain ⟨body, rfl, hbody⟩ := mem_string.1 hv
  have hpos : ∀ c ∈ body, decide (c ≠ '"') = true := fun c hc => decide_eq_true (hbody c hc)
  rw [List.cons_append, List.append_assoc, List.singleton_append, next, first_quote]
  have hrest : (body ++ '"' :: r).dropWhile (· ≠ '"') = '"' :: r := by
    rw [List.dropWhile_append_of_pos hpos, List.dropWhile_cons_of_neg (by decide)]
  rw [string_of_closed hrest, List.takeWhile_append_of_pos hpos,
    List.takeWhile_cons_of_neg (by decide), List.append_nil]

/-- The rules for symbols take the symbol that stands there, or a longer one. -/
theorem isPrefix_symbol {s : String} {kind : Kind} (h : (s, kind) ∈ symbols) (r : List Char) :
    ∃ k, (next (s.toList ++ r)).outcome = .ok k ∧ s.toList <+: (next (s.toList ++ r)).text ∧
      (s.toList = (next (s.toList ++ r)).text → kind = k) := by
  rcases of_mem_symbols h with ⟨c, hs, hsingle⟩ | ⟨c, alone, withEqual, hoperator, hs⟩
  · rw [hs, List.singleton_append, next, first_of_single hsingle]
    exact ⟨kind, rfl, List.prefix_refl _, fun _ => rfl⟩
  · rcases hs with ⟨hs, rfl⟩ | ⟨hs, rfl⟩
    · -- The operator alone: an equals sign behind it makes the longer one of it.
      rw [hs, List.singleton_append, next, first_of_operator hoperator]
      by_cases hhead : r.head? = some '='
      · rw [operator, if_pos hhead]
        exact ⟨withEqual, rfl, ⟨['='], rfl⟩, fun heq => by cases heq⟩
      · rw [operator, if_neg hhead]
        exact ⟨kind, rfl, List.prefix_refl _, fun _ => rfl⟩
    · rw [hs, List.cons_append, List.singleton_append, next, first_of_operator hoperator]
      rw [operator, if_pos List.head?_cons]
      exact ⟨kind, rfl, List.prefix_refl _, fun _ => rfl⟩

/-- Where a token stands, the first piece is a token and no shorter, and of the same kind if it is
    as long. -/
theorem isPrefix_of_isToken {kind : Kind} {v : List Char} (hv : IsToken kind v) (r : List Char) :
    ∃ k, (next (v ++ r)).outcome = .ok k ∧ v <+: (next (v ++ r)).text ∧
      (v = (next (v ++ r)).text → kind = k) := by
  cases hv with
  | symbol h => exact isPrefix_symbol h r
  | word h =>
    obtain ⟨houtcome, hfront⟩ := isPrefix_word h r
    exact ⟨_, houtcome, hfront, fun heq => by rw [← heq]⟩
  | number h =>
    obtain ⟨houtcome, hfront⟩ := isPrefix_number h r
    exact ⟨_, houtcome, hfront, fun _ => rfl⟩
  | string h =>
    rw [eq_string h r]
    exact ⟨_, rfl, List.prefix_refl _, fun _ => rfl⟩

/-- A string without its end takes all the rest, in which there is no other quote. -/
theorem first_of_unterminated {c : Char} {cs : List Char} :
    (first c cs).outcome = .error .unterminatedString →
      c = '"' ∧ '"' ∉ cs ∧ (first c cs).text = c :: cs := by
  apply first_cases (motive := fun p =>
    p.outcome = .error .unterminatedString → c = '"' ∧ '"' ∉ cs ∧ p.text = c :: cs)
  case number => rintro - ⟨⟩
  case word => rintro - ⟨⟩
  case string =>
    rintro rfl
    cases hrest : cs.dropWhile (· ≠ '"') with
    | nil =>
      rw [string_of_open hrest]
      rintro -
      refine ⟨rfl, ?_, rfl⟩
      intro hmem
      simpa using List.dropWhile_eq_nil_iff.1 hrest _ hmem
    | cons quote rest =>
      rw [string_of_closed hrest]
      rintro ⟨⟩
  case operator =>
    intro alone withEqual hoperator
    unfold operator
    split <;> rintro ⟨⟩
  case single => rintro kind - ⟨⟩
  case unexpected => rintro - ⟨⟩

/-- A character that starts no token is taken alone, and is no quote. -/
theorem first_of_unexpected {c : Char} {cs : List Char} :
    (first c cs).outcome = .error .unexpectedCharacter → c ≠ '"' ∧ (first c cs).text = [c] := by
  apply first_cases (motive := fun p =>
    p.outcome = .error .unexpectedCharacter → c ≠ '"' ∧ p.text = [c])
  case number => rintro - ⟨⟩
  case word => rintro - ⟨⟩
  case string =>
    rintro -
    unfold string
    split <;> rintro ⟨⟩
  case operator =>
    intro alone withEqual hoperator
    unfold operator
    split <;> rintro ⟨⟩
  case single => rintro kind - ⟨⟩
  case unexpected =>
    intro hquote _
    exact ⟨hquote, rfl⟩

/-- The kind and lexeme of the token made of a piece. -/
def label (p : Piece) : Kind × String :=
  match p.outcome with
  | .ok kind => (kind, String.ofList p.text)
  | .error e => (.error, e.message)

theorem label_token (p : Piece) (line : Nat) (span : Span) :
    ((p.token line span).kind, (p.token line span).lexeme) = p.label := by
  unfold token label
  cases p.outcome with
  | ok kind => rfl
  | error e => rfl

/-- A piece without a defect is the longest text of a token in front. -/
theorem longest_first {c : Char} {cs : List Char} {kind : Kind}
    (h : (first c cs).outcome = .ok kind) : Longest tokenText (c :: cs) (first c cs).text where
  mem := ⟨kind, isToken_of_outcome_first h⟩
  isPrefix := isPrefix_text_first c cs
  isPrefix_of_mem := by
    rintro v ⟨k, hv⟩ ⟨r, hr⟩
    obtain ⟨-, -, hfront, -⟩ := isPrefix_of_isToken hv r
    rw [hr] at hfront
    exact hfront.length_le

/-- Where the first piece is an error, no token stands. -/
theorem not_mem_of_error {c : Char} {cs : List Char} {e : LexicalError}
    (h : (first c cs).outcome = .error e) {w : List Char} (hw : w ∈ tokenText)
    (hfront : w <+: c :: cs) : w = [] := by
  obtain ⟨kind, htoken⟩ := hw
  obtain ⟨r, hr⟩ := hfront
  obtain ⟨k, hok, -⟩ := isPrefix_of_isToken htoken r
  rw [hr, next, h] at hok
  cases hok

/-- The two errors: what tells them apart, their tokens, and what they leave over. -/
theorem error_cases {c : Char} {cs : List Char} {e : LexicalError}
    (h : (first c cs).outcome = .error e) :
    (c = '"' ∧ (first c cs).label = (.error, "Unterminated string.") ∧
      (c :: cs).drop (first c cs).text.length = []) ∨
    (c ≠ '"' ∧ (first c cs).label = (.error, "Unexpected character.") ∧
      (c :: cs).drop (first c cs).text.length = cs) := by
  cases e with
  | unterminatedString =>
    obtain ⟨hquote, -, htext⟩ := first_of_unterminated h
    refine .inl ⟨hquote, ?_, by rw [htext, List.drop_length]⟩
    rw [label, h]
    rfl
  | unexpectedCharacter =>
    obtain ⟨hquote, htext⟩ := first_of_unexpected h
    refine .inr ⟨hquote, ?_, by rw [htext]; rfl⟩
    rw [label, h]
    rfl

/-- The first piece is taken. -/
theorem takes_first (c : Char) (cs : List Char) :
    Takes (c :: cs) (first c cs).label ((c :: cs).drop (first c cs).text.length) := by
  cases houtcome : (first c cs).outcome with
  | ok kind =>
    -- The text is written as the token and what is behind it, as `Takes` has it.
    obtain ⟨r, hr⟩ := isPrefix_text_first c cs
    have hlongest := longest_first houtcome
    rw [label, houtcome]
    rw [← hr] at hlongest ⊢
    rw [List.drop_left]
    exact .token hlongest (isToken_of_outcome_first houtcome)
  | error e =>
    have hnone : ∀ w ∈ tokenText, w <+: c :: cs → w = [] :=
      fun w hw hfront => not_mem_of_error houtcome hw hfront
    rcases error_cases houtcome with ⟨rfl, hlabel, hrest⟩ | ⟨hquote, hlabel, hrest⟩
    · rw [hlabel, hrest]
      exact .unterminated hnone
    · rw [hlabel, hrest]
      exact .unexpected hnone hquote

/-- Where no token stands, the first piece is an error. -/
theorem exists_error_of_none {c : Char} {cs : List Char}
    (h : ∀ w ∈ tokenText, w <+: c :: cs → w = []) : ∃ e, (first c cs).outcome = .error e := by
  cases houtcome : (first c cs).outcome with
  | error e => exact ⟨e, rfl⟩
  | ok kind =>
    have hnil := h _ ⟨kind, isToken_of_outcome_first houtcome⟩ (isPrefix_text_first c cs)
    exact absurd hnil (text_first_ne_nil c cs)

/-- The first piece and no other is taken. -/
theorem eq_first_of_takes {c : Char} {cs r : List Char} {lab : Kind × String}
    (h : Takes (c :: cs) lab r) :
    lab = (first c cs).label ∧ r = (c :: cs).drop (first c cs).text.length := by
  generalize hcs : c :: cs = text at h
  cases h with
  | @token w r kind hw hkind =>
    -- The piece is at least as long as the token, and being a token it is at most as long.
    obtain ⟨k, hok, hfront, hsame⟩ := isPrefix_of_isToken hkind r
    rw [← hcs, next] at hok hfront hsame
    have hle := hw.isPrefix_of_mem _ ⟨k, isToken_of_outcome_first hok⟩
      (hcs ▸ isPrefix_text_first c cs)
    have heq : w = (first c cs).text :=
      hfront.eq_of_length (Nat.le_antisymm hfront.length_le hle)
    rw [label, hok, hsame heq, ← heq, List.drop_left]
    exact ⟨rfl, rfl⟩
  | unterminated hnone =>
    obtain ⟨rfl, rfl⟩ := List.cons.inj hcs
    obtain ⟨e, houtcome⟩ := exists_error_of_none hnone
    rcases error_cases houtcome with ⟨-, hlabel, hrest⟩ | ⟨hquote, -, -⟩
    · exact ⟨hlabel.symm, hrest.symm⟩
    · exact absurd rfl hquote
  | unexpected hnone hquote =>
    obtain ⟨rfl, rfl⟩ := List.cons.inj hcs
    obtain ⟨e, houtcome⟩ := exists_error_of_none hnone
    rcases error_cases houtcome with ⟨hc, -, -⟩ | ⟨-, hlabel, hrest⟩
    · exact absurd hc hquote
    · exact ⟨hlabel.symm, hrest.symm⟩

end Piece

/-! ## All items of a text -/

/-- The longest trivia are the gap of the first item. -/
theorem Item.first_of_longest {gap r : List Char} (h : Longest trivia (gap ++ r) gap) :
    Item.first (gap ++ r) = ⟨gap, Piece.next r⟩ := by
  have hgap : Trivia.leading false (gap ++ r) = gap := (Trivia.longest_leading _).unique h
  rw [Item.first, Trivia.rest, hgap, List.drop_left]

/-- The items of a text are a cut of it by longest match. -/
theorem munch_items (cs : List Char) : Munch cs ((items cs).map fun item => item.piece.label) := by
  induction cs using items_induction with
  | last cs h =>
    have hrest : Trivia.rest cs = [] := Piece.text_next_eq_nil.1 h
    have hleading := Trivia.longest_leading cs
    rw [Item.piece_first_eq_nil.1 h] at hleading
    rw [items_of_last h, List.map_singleton, Item.first, hrest]
    exact .eof hleading
  | piece cs h ih =>
    have happend := Trivia.leading_append_rest cs
    have hleading : Longest trivia (Trivia.leading false cs ++ Trivia.rest cs)
        (Trivia.leading false cs) := by
      rw [happend]
      exact Trivia.longest_leading cs
    have hbehind : Item.rest cs = (Trivia.rest cs).drop (Piece.next (Trivia.rest cs)).text.length :=
      Item.rest_eq_drop cs
    rw [items_of_piece h, List.map_cons, Item.first]
    rw [hbehind] at ih ⊢
    -- Behind the trivia a character stands, for else this would be the last item.
    cases hrest : Trivia.rest cs with
    | nil => exact absurd (Piece.text_next_eq_nil.2 hrest) h
    | cons c r =>
      rw [hrest] at ih hleading happend
      have hmunch := Munch.next hleading (List.cons_ne_nil c r) (Piece.takes_first c r) ih
      rwa [happend] at hmunch

/-- The items of a text are its only cut by longest match. -/
theorem eq_items_of_munch {cs : List Char} {labels : List (Kind × String)} (h : Munch cs labels) :
    labels = (items cs).map fun item => item.piece.label := by
  induction h with
  | @eof text h =>
    have hleading : Trivia.leading false text = text := (Trivia.longest_leading text).unique h
    have hlast : (Item.first text).piece.text = [] := Item.piece_first_eq_nil.2 hleading
    have hrest : Trivia.rest text = [] := Piece.text_next_eq_nil.1 hlast
    rw [items_of_last hlast, List.map_singleton, Item.first, hrest]
    rfl
  | @next gap r r' lab labels hgap hr htakes hrest ih =>
    have hfirst := Item.first_of_longest hgap
    cases r with
    | nil => exact absurd rfl hr
    | cons c r =>
      -- What is taken is the first piece, so the cut goes on where the next item starts.
      obtain ⟨rfl, rfl⟩ := Piece.eq_first_of_takes htakes
      have hpiece : (Item.first (gap ++ c :: r)).piece.text ≠ [] := by
        rw [hfirst]
        exact Piece.text_first_ne_nil c r
      have hbehind : Item.rest (gap ++ c :: r) =
          (c :: r).drop (Piece.first c r).text.length := by
        have hgap' : Trivia.leading false (gap ++ c :: r) = gap :=
          (Trivia.longest_leading _).unique hgap
        rw [Item.rest_eq_drop, hfirst, Trivia.rest, hgap', List.drop_left, Piece.next]
      rw [items_of_piece hpiece, List.map_cons, hfirst, hbehind, ih]
      rfl

/-- The tokens of items have the kinds and lexemes of their pieces. -/
theorem map_label_tokensAfter (u : List Char) (its : List Item) :
    ((tokensAfter u its).map fun t => (t.kind, t.lexeme)) =
      its.map fun item => item.piece.label := by
  induction its generalizing u with
  | nil => rfl
  | cons item its ih =>
    rw [tokensAfter, List.map_cons, List.map_cons, ih, Item.token, Piece.label_token]

/-- Every source is scanned, and its tokens are its only cut by longest match. -/
theorem tokenize_longestMatch {source : String} (h : Scannable source) :
    ∃ ts, tokenize source = .ok ts ∧
      ∀ labels, Munch source.toList labels ↔ labels = ts.map fun t => (t.kind, t.lexeme) := by
  refine ⟨tokens source, tokenize_of_scannable h, ?_⟩
  intro labels
  rw [tokens, map_label_tokensAfter]
  constructor
  · exact eq_items_of_munch
  · rintro rfl
    exact munch_items _

theorem tokenize_longestMatch_point :
    Scannable "3.x" ∧ ∀ labels, Munch "3.x".toList labels ↔
      labels = [(.number, "3"), (.dot, "."), (.identifier, "x"), (.eof, "")] := by
  have h : Scannable "3.x" := ⟨by decide, by decide⟩
  obtain ⟨ts, hts, hmunch⟩ := tokenize_longestMatch h
  have hlabels : (tokenize "3.x").map (·.map fun t => (t.kind, t.lexeme)) =
      .ok [(.number, "3"), (.dot, "."), (.identifier, "x"), (.eof, "")] := by
    decide +kernel
  rw [hts, Fault.map_ok, Except.ok.injEq] at hlabels
  rw [hlabels] at hmunch
  exact ⟨h, hmunch⟩

end Lexis

/-
  Lexis.Proofs.Scan.Piece

  The first token's text at the front of a text that does not start with trivia.

  A piece is the text and what it is: a kind of token or an error. Each rule takes as much as it
  can: digits and a fraction only if the point is followed by a digit, a whole word before it is
  looked up as a keyword, an operator with its `=`, a string up to the next quote. A string without
  a closing quote takes all the rest, and a character that starts no token is a piece by itself.
  At the end of the text stands the empty piece of the end token.
-/

import Lexis.Text.Classes
import Lexis.Token.Basic
import Lexis.Token.Keyword
import Lexis.Token.Symbol

namespace Lexis

/-- The text of one token and what it is. -/
structure Piece where
  outcome : Except LexicalError Kind
  text : List Char

namespace Piece

open Lexis.Text

/-- The token made of a piece. -/
def token (p : Piece) (line : Nat) (span : Span) : Token :=
  match p.outcome with
  | .ok kind => ⟨kind, String.ofList p.text, line, span⟩
  | .error e => .ofError e line span

/-! ## The rules -/

/-- A fraction: a point and the digits after it, at least one. -/
def fraction : List Char → List Char
  | '.' :: d :: cs => if isDigit d then '.' :: d :: cs.takeWhile isDigit else []
  | _ => []

theorem fraction_of_digit {d : Char} (hd : isDigit d = true) (cs : List Char) :
    fraction ('.' :: d :: cs) = '.' :: (d :: cs).takeWhile isDigit := by
  rw [fraction, if_pos hd, List.takeWhile_cons_of_pos hd]

/-- A point that no digit follows is no fraction. -/
theorem fraction_of_point {cs : List Char} (h : ∀ d ∈ cs.head?, isDigit d = false) :
    fraction ('.' :: cs) = [] := by
  cases cs with
  | nil => rfl
  | cons d cs => rw [fraction, if_neg (by simp [h d rfl])]

theorem fraction_of_ne {c : Char} (hc : c ≠ '.') (cs : List Char) : fraction (c :: cs) = [] := by
  unfold fraction
  split
  next heq => exact absurd (List.cons.inj heq).1 hc
  · rfl

/-- The number that starts with the digit `c`. -/
def number (c : Char) (cs : List Char) : Piece :=
  ⟨.ok .number, c :: (cs.takeWhile isDigit ++ fraction (cs.dropWhile isDigit))⟩

/-- The word that starts with `c`: a keyword or an identifier. -/
def word (c : Char) (cs : List Char) : Piece :=
  let text := c :: cs.takeWhile isWordPart
  ⟨.ok ((Keyword.ofWord? (String.ofList text)).getD .identifier), text⟩

/-- The string whose opening quote stands before `cs`. -/
def string (cs : List Char) : Piece :=
  match cs.dropWhile (· ≠ '"') with
  | [] => ⟨.error .unterminatedString, '"' :: cs⟩
  | quote :: _ => ⟨.ok .string, '"' :: (cs.takeWhile (· ≠ '"') ++ [quote])⟩

/-- A string without its closing quote takes all that is left. -/
theorem string_of_open {cs : List Char} (h : cs.dropWhile (· ≠ '"') = []) :
    string cs = ⟨.error .unterminatedString, '"' :: cs⟩ := by
  rw [string, h]

theorem string_of_closed {cs rest : List Char} {quote : Char}
    (h : cs.dropWhile (· ≠ '"') = quote :: rest) :
    string cs = ⟨.ok .string, '"' :: (cs.takeWhile (· ≠ '"') ++ [quote])⟩ := by
  rw [string, h]

/-- The operator `c`, which takes an `=` that follows. -/
def operator (c : Char) (alone withEqual : Kind) (cs : List Char) : Piece :=
  if cs.head? = some '=' then ⟨.ok withEqual, [c, '=']⟩ else ⟨.ok alone, [c]⟩

/-- The token or unexpected character that starts with `c`, which no other rule takes. -/
def symbol (c : Char) (cs : List Char) : Piece :=
  match Symbol.operator? c with
  | some (alone, withEqual) => operator c alone withEqual cs
  | none =>
    match Symbol.single? c with
    | some kind => ⟨.ok kind, [c]⟩
    | none => ⟨.error .unexpectedCharacter, [c]⟩

/-- The first piece of the text `c :: cs`. -/
def first (c : Char) (cs : List Char) : Piece :=
  if isDigit c then number c cs
  else if isWordStart c then word c cs
  else if c = '"' then string cs
  else symbol c cs

/-- One case for each rule by which the first piece of a text may come. -/
theorem first_cases {motive : Piece → Prop} {c : Char} {cs : List Char}
    (number : isDigit c = true → motive (number c cs))
    (word : isWordStart c = true → motive (word c cs))
    (string : c = '"' → motive (string cs))
    (operator : ∀ alone withEqual, Symbol.operator? c = some (alone, withEqual) →
      motive (operator c alone withEqual cs))
    (single : ∀ kind, Symbol.single? c = some kind → motive ⟨.ok kind, [c]⟩)
    (unexpected : c ≠ '"' → motive ⟨.error .unexpectedCharacter, [c]⟩) :
    motive (first c cs) := by
  unfold first
  by_cases hdigit : isDigit c = true
  · rw [if_pos hdigit]
    exact number hdigit
  · rw [if_neg hdigit]
    by_cases hword : isWordStart c = true
    · rw [if_pos hword]
      exact word hword
    · rw [if_neg hword]
      by_cases hquote : c = '"'
      · rw [if_pos hquote]
        exact string hquote
      · rw [if_neg hquote, symbol]
        split
        next hoperator => exact operator _ _ hoperator
        · split
          next hsingle => exact single _ hsingle
          · exact unexpected hquote

theorem first_of_digit {c : Char} (hc : isDigit c = true) (cs : List Char) :
    first c cs = number c cs :=
  if_pos hc

theorem isDigit_eq_false_of_isWordStart {c : Char} (hc : isWordStart c = true) :
    isDigit c = false := by
  simp only [isWordStart, Bool.or_eq_true, Bool.and_eq_true, decide_eq_true_eq, beq_iff_eq] at hc
  simp only [isDigit, Bool.and_eq_false_iff, decide_eq_false_iff_not]
  right
  intro hle
  rcases hc with (⟨hlow, -⟩ | ⟨hlow, -⟩) | rfl
  · exact absurd (Char.le_trans hlow hle) (by decide)
  · exact absurd (Char.le_trans hlow hle) (by decide)
  · exact absurd hle (by decide)

theorem first_of_wordStart {c : Char} (hc : isWordStart c = true) (cs : List Char) :
    first c cs = word c cs := by
  rw [first, isDigit_eq_false_of_isWordStart hc, if_neg Bool.false_ne_true, if_pos hc]

theorem first_quote (cs : List Char) : first '"' cs = string cs := rfl

theorem first_of_operator {c : Char} {alone withEqual : Kind}
    (h : Symbol.operator? c = some (alone, withEqual)) (cs : List Char) :
    first c cs = operator c alone withEqual cs := by
  have hclasses : isDigit c = false ∧ isWordStart c = false ∧ c ≠ '"' := by
    unfold Symbol.operator? at h
    split at h <;> first | decide | cases h
  rw [first, hclasses.1, hclasses.2.1, if_neg Bool.false_ne_true, if_neg Bool.false_ne_true,
    if_neg hclasses.2.2, symbol, h]

theorem first_of_single {c : Char} {kind : Kind} (h : Symbol.single? c = some kind)
    (cs : List Char) : first c cs = ⟨.ok kind, [c]⟩ := by
  have hclasses : isDigit c = false ∧ isWordStart c = false ∧ c ≠ '"' ∧
      Symbol.operator? c = none := by
    unfold Symbol.single? at h
    split at h <;> first | decide | cases h
  rw [first, hclasses.1, hclasses.2.1, if_neg Bool.false_ne_true, if_neg Bool.false_ne_true,
    if_neg hclasses.2.2.1, symbol, hclasses.2.2.2]
  simp only [h]

/-- The first piece of a text, which is that of the end token if the text is empty. -/
def next : List Char → Piece
  | [] => ⟨.ok .eof, []⟩
  | c :: cs => first c cs

/-! ## A piece is a beginning of the text, and not an empty one -/

theorem isPrefix_fraction (cs : List Char) : fraction cs <+: cs := by
  unfold fraction
  split
  · split
    · exact List.prefix_cons_inj _ |>.2 (List.prefix_cons_inj _ |>.2 (List.takeWhile_prefix _))
    · exact List.nil_prefix
  · exact List.nil_prefix

theorem isPrefix_text_string (cs : List Char) : (string cs).text <+: '"' :: cs := by
  unfold string
  split
  · exact List.prefix_refl _
  next quote rest h =>
    refine List.prefix_cons_inj _ |>.2 ⟨rest, ?_⟩
    simp only [List.append_assoc, List.singleton_append, ← h]
    exact List.takeWhile_append_dropWhile

theorem isPrefix_text_number (c : Char) (cs : List Char) : (number c cs).text <+: c :: cs := by
  refine List.prefix_cons_inj _ |>.2 ?_
  conv => rhs; rw [← List.takeWhile_append_dropWhile (p := isDigit) (l := cs)]
  exact List.prefix_append_right_inj _ |>.2 (isPrefix_fraction _)

theorem isPrefix_text_operator (c : Char) (alone withEqual : Kind) (cs : List Char) :
    (operator c alone withEqual cs).text <+: c :: cs := by
  unfold operator
  split
  next h =>
    obtain ⟨rest, rfl⟩ := List.head?_eq_some_iff.1 h
    exact ⟨rest, rfl⟩
  · exact ⟨cs, rfl⟩

theorem isPrefix_text_first (c : Char) (cs : List Char) : (first c cs).text <+: c :: cs := by
  apply first_cases (motive := fun p => p.text <+: c :: cs)
  case number =>
    intro _
    exact isPrefix_text_number c cs
  case word =>
    intro _
    exact List.prefix_cons_inj _ |>.2 (List.takeWhile_prefix _)
  case string =>
    rintro rfl
    exact isPrefix_text_string cs
  case operator =>
    intro alone withEqual _
    exact isPrefix_text_operator c alone withEqual cs
  case single => exact fun _ _ => ⟨cs, rfl⟩
  case unexpected => exact fun _ => ⟨cs, rfl⟩

theorem isPrefix_text_next (cs : List Char) : (next cs).text <+: cs := by
  cases cs with
  | nil => exact List.prefix_refl _
  | cons c cs => exact isPrefix_text_first c cs

/-- A piece in front of a character is not empty: the scanner always moves. -/
theorem text_first_ne_nil (c : Char) (cs : List Char) : (first c cs).text ≠ [] := by
  apply first_cases (motive := fun p => p.text ≠ [])
  -- The rules with two outcomes come first; the others have one, which is not empty.
  case string =>
    intro _
    unfold string
    split <;> exact List.cons_ne_nil _ _
  case operator =>
    intro _ _ _
    unfold operator
    split <;> exact List.cons_ne_nil _ _
  all_goals
    intros
    exact List.cons_ne_nil _ _

theorem isPrefix_cons_text_first (c : Char) (cs : List Char) : [c] <+: (first c cs).text := by
  obtain ⟨rest, hrest⟩ := isPrefix_text_first c cs
  -- A beginning of `c :: cs` that is not empty starts with `c`.
  cases htext : (first c cs).text with
  | nil => exact absurd htext (text_first_ne_nil c cs)
  | cons d ds =>
    rw [htext, List.cons_append, List.cons.injEq] at hrest
    exact ⟨ds, by rw [hrest.1]; rfl⟩

theorem text_next_eq_nil {cs : List Char} : (next cs).text = [] ↔ cs = [] := by
  cases cs with
  | nil => simp [next]
  | cons c cs => simp [next, text_first_ne_nil]

/-! ## Only the empty piece is the end of the text -/

theorem ne_of_operator? {c : Char} {alone withEqual : Kind}
    (h : Symbol.operator? c = some (alone, withEqual)) :
    (alone ≠ .eof ∧ alone ≠ .error) ∧ withEqual ≠ .eof ∧ withEqual ≠ .error := by
  unfold Symbol.operator? at h
  split at h <;> cases h <;> decide

theorem ne_of_single? {c : Char} {kind : Kind} (h : Symbol.single? c = some kind) :
    kind ≠ .eof ∧ kind ≠ .error := by
  unfold Symbol.single? at h
  split at h <;> cases h <;> decide

theorem ne_of_isKeyword {kind : Kind} (h : kind.isKeyword = true) :
    kind ≠ .eof ∧ kind ≠ .error := by
  constructor
  · rintro rfl
    exact absurd h (by decide)
  · rintro rfl
    exact absurd h (by decide)

/-- The kinds of the end token and of errors are kept for them. -/
theorem ne_of_outcome_first {c : Char} {cs : List Char} {kind : Kind} :
    (first c cs).outcome = .ok kind → kind ≠ .eof ∧ kind ≠ .error := by
  apply first_cases (motive := fun p => p.outcome = .ok kind → kind ≠ .eof ∧ kind ≠ .error)
  case number =>
    rintro - ⟨⟩
    decide
  case word =>
    rintro - ⟨⟩
    -- A word is an identifier or one of the keywords, of which none is the end or an error.
    cases h : Keyword.ofWord? (String.ofList (c :: cs.takeWhile isWordPart)) with
    | none => decide
    | some k => exact ne_of_isKeyword (Keyword.isKeyword_of_ofWord? h)
  case string =>
    rintro -
    unfold string
    split
    · rintro ⟨⟩
    · rintro ⟨⟩
      decide
  case operator =>
    intro alone withEqual hoperator
    obtain ⟨halone, hequal⟩ := ne_of_operator? hoperator
    unfold operator
    split
    · rintro ⟨⟩
      exact hequal
    · rintro ⟨⟩
      exact halone
  case single =>
    rintro k hsingle ⟨⟩
    exact ne_of_single? hsingle
  case unexpected => rintro - ⟨⟩

theorem outcome_first_ne_eof (c : Char) (cs : List Char) : (first c cs).outcome ≠ .ok .eof :=
  fun h => (ne_of_outcome_first h).1 rfl

/-- The piece of the end is told by an empty text. -/
theorem outcome_next_eq_eof {cs : List Char} : (next cs).outcome = .ok .eof ↔ cs = [] := by
  cases cs with
  | nil => simp [next]
  | cons c cs => simp [next, outcome_first_ne_eof]

theorem isEof_token {p : Piece} {line : Nat} {span : Span} :
    (p.token line span).isEof = true ↔ p.outcome = .ok .eof := by
  unfold token
  cases h : p.outcome with
  | ok kind => simp [Token.isEof]
  | error e => simp [Token.isEof, Token.ofError]

theorem ne_error_of_outcome_next {cs : List Char} {kind : Kind}
    (h : (next cs).outcome = .ok kind) : kind ≠ .error := by
  cases cs with
  | nil =>
    cases h
    decide
  | cons c cs => exact (ne_of_outcome_first h).2

/-- The token of a text's first piece reports the error of that piece, and else none. -/
theorem error?_token_next (cs : List Char) (line : Nat) (span : Span) :
    ((next cs).token line span).error? =
      match (next cs).outcome with
      | .ok _ => none
      | .error e => some e := by
  unfold token
  cases houtcome : (next cs).outcome with
  | error e => exact Token.error?_ofError e line span
  | ok kind =>
    simp [Token.error?, Token.isError, ne_error_of_outcome_next houtcome]

/-- A token is an error exactly if its message names one. -/
theorem isError_token_next (cs : List Char) (line : Nat) (span : Span) :
    ((next cs).token line span).isError = ((next cs).token line span).error?.isSome := by
  rw [error?_token_next]
  unfold token
  cases houtcome : (next cs).outcome with
  | error e => rfl
  | ok kind =>
    simp [Token.isError, ne_error_of_outcome_next houtcome]

end Piece

end Lexis

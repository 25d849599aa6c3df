/-
  Lexis.Proofs.Toml.Leaves

  Booleans, integers and basic strings are read as what they stand for.

  Each is read up to the end of its line. A string is read one written character after another. An
  integer is read as a word, and that word must be neither a date nor a float: it has a sign at
  its front only, and behind its digits neither a fraction nor an exponent follows.
-/

import Lexis.Proofs.Toml.Grammar
import Lexis.Toml.Document
import Mathlib.Data.List.Basic
import Mathlib.Data.List.TakeDrop
import Mathlib.Data.List.TakeWhile

namespace Lexis.Toml

open Lexis.Text

variable {c : Char} {cs ds body rest t : List Char} {v : Value}

/-! ## Basic strings -/

theorem hexDigit?_eq (c : Char) : hexDigit? c = hexValue? c := by
  simp [hexDigit?, hexValue?, isDigit]

/-- Hexadecimal digits are read one after another. -/
theorem foldlM_hexDigit? {ds : List Char} (h : ∀ d ∈ ds, (hexValue? d).isSome = true) (n : Nat) :
    ds.foldlM (fun n d => (hexDigit? d).map (16 * n + ·)) n =
      some (ds.foldl (fun n d => 16 * n + (hexValue? d).getD 0) n) := by
  induction ds generalizing n with
  | nil => rfl
  | cons d ds ih =>
    obtain ⟨hd, hds⟩ := List.forall_mem_cons.1 h
    obtain ⟨k, hk⟩ := Option.isSome_iff_exists.1 hd
    rw [List.foldlM_cons, hexDigit?_eq, hk, Option.map_some]
    show ds.foldlM _ (16 * n + k) = _
    rw [ih hds, List.foldl_cons, hk, Option.getD_some]

theorem codePoint?_of_isCode {length : Nat} (h : IsCode length ds c) : codePoint? ds = some c := by
  obtain ⟨-, hdigits, hvalue⟩ := h
  unfold codePoint?
  rw [foldlM_hexDigit? hdigits 0]
  show (if (ofHex ds).isValidChar then some (Char.ofNat (ofHex ds)) else none) = _
  rw [hvalue, if_pos (show c.toNat.isValidChar from c.valid), Char.ofNat_toNat]

/-- One character of a string, in whichever way it is written. -/
theorem readBasic?_of_charText (h : CharText t c) (rest : List Char) :
    readBasic? (t ++ rest) = withChar c (readBasic? rest) := by
  cases h with
  | plain h =>
    simp only [isUnescaped, Bool.and_eq_true, bne_iff_ne, ne_eq] at h
    obtain ⟨⟨⟨hplain, hdelete⟩, hquote⟩, hescape⟩ := h
    have hisPlain : isPlain c = true := by simp_all [isPlain]
    rw [List.singleton_append, readBasic?.eq_def]
    -- With the quote and the backslash ruled out the last case is left.
    split <;> simp_all
  | letter h =>
    simp only [escapeLetters, List.mem_cons, List.not_mem_nil, or_false, Prod.mk.injEq] at h
    rcases h with ⟨rfl, rfl⟩ | ⟨rfl, rfl⟩ | ⟨rfl, rfl⟩ | ⟨rfl, rfl⟩ | ⟨rfl, rfl⟩ | ⟨rfl, rfl⟩ |
      ⟨rfl, rfl⟩ <;> rfl
  | @short ds _ h =>
    obtain ⟨a, b, c', d, rfl⟩ := List.length_eq_four.1 h.1
    show (codePoint? [a, b, c', d]).bind _ = _
    rw [codePoint?_of_isCode h, Option.bind_some]
    rfl
  | @long ds _ h =>
    match ds, h with
    | [a, b, c', d, e, f, g, i], h =>
      show (codePoint? [a, b, c', d, e, f, g, i]).bind _ = _
      rw [codePoint?_of_isCode h, Option.bind_some]
      rfl

/-- The characters of a string, by induction on how they are written. -/
theorem readBasic?_of_charsText (h : CharsText body cs) (rest : List Char) :
    readBasic? (body ++ '"' :: rest) = some (cs, rest) := by
  induction h with
  | nil => rfl
  | cons h _ ih =>
    rw [List.append_assoc, readBasic?_of_charText h, ih]
    rfl

theorem CharText.exists_cons (h : CharText t c) : ∃ d ds, t = d :: ds ∧ d ≠ '"' := by
  cases h with
  | plain h =>
    refine ⟨c, [], rfl, ?_⟩
    rintro rfl
    simp [isUnescaped] at h
  | letter | short | long => exact ⟨_, _, rfl, by decide⟩

/-- A basic string ends at its line end, so its quotes are never three in a row. -/
theorem readString?_of_charsText (h : CharsText body cs) (rest : List Char) :
    readString? ('"' :: (body ++ '"' :: '\n' :: rest)) = some (cs, '\n' :: rest) := by
  have hbasic := readBasic?_of_charsText h ('\n' :: rest)
  cases h with
  | nil => rfl
  | cons ht _ =>
    obtain ⟨d, ds, rfl, hd⟩ := ht.exists_cons
    rw [← hbasic, List.cons_append, List.cons_append, readString?.eq_def]
    split <;> simp_all

/-! ## Integers -/

variable {digit : Char → Bool} {n : Nat}

theorem isDigitOf_eq (base : Nat) (c : Char) :
    isDigitOf base c = (hexDigit? c).any (· < base) := by
  rw [isDigitOf, hexDigit?_eq]

theorem Grouped.exists_cons (h : Grouped digit cs ds) :
    ∃ d cs' ds', cs = d :: cs' ∧ ds = d :: ds' ∧ digit d = true := by
  cases h with
  | one h => exact ⟨_, _, _, rfl, rfl, h⟩
  | next h => exact ⟨_, _, _, rfl, rfl, h⟩
  | group h => exact ⟨_, _, _, rfl, rfl, h⟩

theorem Grouped.mem (h : Grouped digit cs ds) : ∀ c ∈ cs, digit c = true ∨ c = '_' := by
  induction h with
  | one h => simp [h]
  | next h _ ih => simpa [h] using ih
  | group h _ ih => simpa [h] using ih

/-- Taking the separators out of grouped digits leaves the digits. -/
theorem Grouped.ungroup? (h : Grouped digit cs ds) (hunder : digit '_' = false) :
    ungroup? digit cs = some ds := by
  induction h with
  | one h => simp [Toml.ungroup?, h]
  | @next d cs ds h hs ih =>
    obtain ⟨e, cs', ds', rfl, rfl, he⟩ := hs.exists_cons
    have hne : e ≠ '_' := by
      rintro rfl
      rw [hunder] at he
      cases he
    rw [Toml.ungroup?.eq_def]
    split <;> simp_all
  | group h _ ih => simp [Toml.ungroup?, h, ih]

theorem cases_of_mem_bases {letter : Char} {base : Nat} (h : (letter, base) ∈ bases) :
    letter = 'x' ∧ base = 16 ∨ letter = 'o' ∧ base = 8 ∨ letter = 'b' ∧ base = 2 := by
  simpa [bases] using h

theorem int64?_of_inInt64 {n : Int} (h : InInt64 n) : int64? n = some n :=
  if_pos h

theorem based?_of_grouped {base : Nat} (h : Grouped (isDigitOf base) cs ds)
    (hrange : InInt64 (ofBase base ds)) : based? base cs = some (ofBase base ds : Int) := by
  -- The reader's class of digits is the grammar's.
  have hdigit : isDigitOf base = fun c => (hexDigit? c).any (· < base) :=
    funext (isDigitOf_eq base)
  have hunder : isDigitOf base '_' = false := rfl
  have hdigits := h.ungroup? hunder
  rw [hdigit] at hdigits
  have hvalue : (fun n d => base * n + (hexDigit? d).getD 0) =
      fun n d => base * n + (hexValue? d).getD 0 := by
    funext n d
    rw [hexDigit?_eq]
  unfold based?
  show (ungroup? (fun c => (hexDigit? c).any (· < base)) cs).bind _ = _
  rw [hdigits, Option.bind_some, hvalue]
  exact int64?_of_inInt64 hrange

theorem DecimalText.exists_cons (h : DecimalText cs n) :
    ∃ d cs', cs = d :: cs' ∧ isDigit d = true ∧ ∀ c ∈ cs, isDigit c = true ∨ c = '_' := by
  cases h with
  | digits h =>
    obtain ⟨d, cs', -, rfl, -, hd⟩ := h.exists_cons
    exact ⟨d, cs', rfl, hd, h.mem⟩

theorem DecimalText.wholeDigits? (h : DecimalText cs n) :
    ∃ ds, wholeDigits? cs = some ds ∧ Numeral.ofDigits ds = n := by
  cases h with
  | digits h hzero =>
    refine ⟨_, ?_, rfl⟩
    unfold Toml.wholeDigits?
    rw [h.ungroup? rfl]
    split
    next hds =>
      cases hds
      cases hzero rfl
    next => rfl

theorem splitSign_of_decimalText (h : DecimalText cs n) : Numeral.splitSign cs = (false, cs) := by
  obtain ⟨d, cs', rfl, hd, -⟩ := h.exists_cons
  unfold Numeral.splitSign
  split <;> simp_all [isDigit]

/-- A text that names no base is read as a decimal behind its sign. -/
theorem integer?_of_decimal {body : List Char} (negative : Bool) (hbody : DecimalText body n)
    (hsign : Numeral.splitSign cs = (negative, body))
    (hbase : ∀ letter base, (letter, base) ∈ bases → ∀ r, cs ≠ '0' :: letter :: r)
    (hrange : InInt64 (if negative then -n else n)) :
    integer? cs = some (if negative then -(n : Int) else n) := by
  obtain ⟨ds, hds, hvalue⟩ := hbody.wholeDigits?
  unfold integer?
  -- A prefix for another base is none of a decimal number.
  split
  next r => exact absurd rfl (hbase 'x' 16 (by simp [bases]) r)
  next r => exact absurd rfl (hbase 'o' 8 (by simp [bases]) r)
  next r => exact absurd rfl (hbase 'b' 2 (by simp [bases]) r)
  next =>
    rw [hsign]
    show (Toml.wholeDigits? body).bind _ = _
    rw [hds]
    show int64? (if negative then -(Numeral.ofDigits ds : Int) else Numeral.ofDigits ds) = _
    rw [hvalue]
    exact int64?_of_inInt64 hrange

/-- A text of an integer in range reads as that integer. -/
theorem integer?_of_integerText {n : Int} (h : IntegerText cs n) (hrange : InInt64 n) :
    integer? cs = some n := by
  cases h with
  | plain h =>
    refine integer?_of_decimal false h (splitSign_of_decimalText h) ?_ hrange
    -- The letter of a base is neither a digit nor an underscore.
    obtain ⟨d, cs', rfl, -, hmem⟩ := h.exists_cons
    rintro letter base hbase r heq
    have hletter := hmem letter (by rw [heq]; simp)
    rcases cases_of_mem_bases hbase with ⟨rfl, -⟩ | ⟨rfl, -⟩ | ⟨rfl, -⟩ <;>
      revert hletter <;> decide
  | plus h => exact integer?_of_decimal false h rfl (fun _ _ _ _ => nofun) hrange
  | minus h => exact integer?_of_decimal true h rfl (fun _ _ _ _ => nofun) hrange
  | based hbase h =>
    rcases cases_of_mem_bases hbase with ⟨rfl, rfl⟩ | ⟨rfl, rfl⟩ | ⟨rfl, rfl⟩ <;>
      exact based?_of_grouped h hrange

/-! ## Neither a date nor a float -/

theorem isDate_eq_false (h : '-' ∉ cs.tail) : isDate cs = false := by
  unfold isDate
  split
  next => simp at h
  next => rfl

theorem readTime?_eq_none (h : ':' ∉ cs.tail) : readTime? cs = none := by
  unfold readTime?
  split
  next => simp at h
  next => rfl

/-- A hyphen or a colon stands inside every date and time. -/
theorem isDateTime_eq_false (hhyphen : '-' ∉ cs.tail) (hcolon : ':' ∉ cs.tail) :
    isDateTime cs = false := by
  have hfront : '-' ∉ (cs.take 10).tail := by
    rw [List.tail_take_eq_take_tail]
    exact fun hmem => hhyphen (List.mem_of_mem_take hmem)
  simp [isDateTime, isDate_eq_false hhyphen, isDate_eq_false hfront, readTime?_eq_none hcolon]

/-- Without a fraction and an exponent there is no float. -/
theorem isFloat_eq_false {body : List Char} {negative : Bool} {d : Char}
    (hsign : Numeral.splitSign cs = (negative, d :: body)) (hd : isDigit d = true)
    (htail : isFloatTail ((d :: body).dropWhile fun c => isDigit c || c == '_') = false) :
    isFloat cs = false := by
  have hi : d ≠ 'i' := by
    rintro rfl
    cases hd
  have hn : d ≠ 'n' := by
    rintro rfl
    cases hd
  unfold isFloat
  rw [hsign]
  simp only [htail]
  simp [hi, hn]

theorem dropWhile_of_decimalText (h : DecimalText cs n) :
    cs.dropWhile (fun c => isDigit c || c == '_') = [] := by
  obtain ⟨-, -, -, -, hmem⟩ := h.exists_cons
  rw [List.dropWhile_eq_nil_iff]
  simpa using hmem

theorem isFloat_of_decimal {body : List Char} {negative : Bool} (hbody : DecimalText body n)
    (hsign : Numeral.splitSign cs = (negative, body)) : isFloat cs = false := by
  have hdrop := dropWhile_of_decimalText hbody
  obtain ⟨d, cs', rfl, hd, -⟩ := hbody.exists_cons
  refine isFloat_eq_false hsign hd ?_
  rw [hdrop]
  rfl

theorem isFloat_of_integerText {n : Int} (h : IntegerText cs n) : isFloat cs = false := by
  cases h with
  | plain h => exact isFloat_of_decimal h (splitSign_of_decimalText h)
  | plus h => exact isFloat_of_decimal h rfl
  | minus h => exact isFloat_of_decimal h rfl
  | based hbase h =>
    refine isFloat_eq_false rfl rfl ?_
    rcases cases_of_mem_bases hbase with ⟨rfl, -⟩ | ⟨rfl, -⟩ | ⟨rfl, -⟩ <;> rfl

theorem isWordPart_of_isDigitOf {base : Nat} (h : isDigitOf base c = true) :
    isWordPart c = true := by
  -- A digit of any base is a digit or a letter.
  have hvalue : (hexValue? c).isSome = true := by
    rw [isDigitOf, Option.any_eq_true] at h
    obtain ⟨n, hn, -⟩ := h
    rw [hn]
    rfl
  unfold hexValue? at hvalue
  split at hvalue
  next hdigit => simp [isWordPart, isDigit, hdigit]
  next =>
    split at hvalue
    next hlower =>
      have hz : c ≤ 'z' := Char.le_trans hlower.2 (by decide)
      simp [isWordPart, isWordStart, hlower.1, hz]
    next =>
      split at hvalue
      next hupper =>
        have hz : c ≤ 'Z' := Char.le_trans hupper.2 (by decide)
        simp [isWordPart, isWordStart, hupper.1, hz]
      next => cases hvalue

theorem DecimalText.isWordPart (h : DecimalText cs n) : ∀ c ∈ cs, isWordPart c = true := by
  obtain ⟨-, -, -, -, hmem⟩ := h.exists_cons
  intro c hc
  rcases hmem c hc with hdigit | rfl
  · simp [Text.isWordPart, hdigit]
  · rfl

/-- Behind its first character an integer has letters, digits and underscores only. -/
theorem IntegerText.exists_cons {n : Int} (h : IntegerText cs n) :
    ∃ d cs', cs = d :: cs' ∧ (isDigit d = true ∨ d = '+' ∨ d = '-') ∧
      ∀ c ∈ cs', isWordPart c = true := by
  -- With a sign or without, and in another base a zero in front.
  cases h with
  | plain h =>
    have hword := h.isWordPart
    obtain ⟨d, cs', rfl, hd, -⟩ := h.exists_cons
    exact ⟨d, cs', rfl, .inl hd, (List.forall_mem_cons.1 hword).2⟩
  | plus h => exact ⟨_, _, rfl, .inr (.inl rfl), h.isWordPart⟩
  | minus h => exact ⟨_, _, rfl, .inr (.inr rfl), h.isWordPart⟩
  | based hbase h =>
    refine ⟨_, _, rfl, .inl rfl, List.forall_mem_cons.2 ⟨?_, fun c hc => ?_⟩⟩
    · rcases cases_of_mem_bases hbase with ⟨rfl, -⟩ | ⟨rfl, -⟩ | ⟨rfl, -⟩ <;> rfl
    · rcases h.mem c hc with hdigit | rfl
      · exact isWordPart_of_isDigitOf hdigit
      · rfl

/-! ## Leaves -/

/-- A word that is an integer is neither a date, a time nor a float. -/
theorem scalar?_of_integerText {n : Int} (h : IntegerText cs n) (hrange : InInt64 n) :
    scalar? cs = some (.integer n) := by
  have hfloat := isFloat_of_integerText h
  have hinteger := integer?_of_integerText h hrange
  obtain ⟨d, cs', rfl, hd, hword⟩ := h.exists_cons
  -- Dates need a minus sign inside, times a colon; an integer has neither behind its first
  -- character.
  have hdateTime : isDateTime (d :: cs') = false :=
    isDateTime_eq_false (fun hmem => nomatch hword _ hmem) (fun hmem => nomatch hword _ hmem)
  have ht : d ≠ 't' := by
    rintro rfl
    simp [isDigit] at hd
  have hf : d ≠ 'f' := by
    rintro rfl
    simp [isDigit] at hd
  simp [scalar?, ht, hf, hdateTime, hfloat, hinteger]

/-- What is read at the end of a line is the whole word. -/
theorem readScalar?_append {word : List Char} (hword : ∀ c ∈ word, isScalarPart c = true)
    (rest : List Char) :
    readScalar? (word ++ '\n' :: rest) = (scalar? word).map fun v => (v, '\n' :: rest) := by
  have htake : (word ++ '\n' :: rest).takeWhile isScalarPart = word := by
    rw [List.takeWhile_append_of_pos hword, List.takeWhile_cons_of_neg (by decide),
      List.append_nil]
  have hdrop : (word ++ '\n' :: rest).dropWhile isScalarPart = '\n' :: rest := by
    rw [List.dropWhile_append_of_pos hword, List.dropWhile_cons_of_neg (by decide)]
  unfold readScalar?
  rw [htake, hdrop]
  rfl

theorem isScalarPart_of_isWordPart (h : isWordPart c = true) : isScalarPart c = true := by
  simp [isScalarPart, h]

theorem isScalarPart_of_integerText {n : Int} (h : IntegerText cs n) :
    ∀ c ∈ cs, isScalarPart c = true := by
  obtain ⟨d, cs', rfl, hd, hword⟩ := h.exists_cons
  refine List.forall_mem_cons.2 ⟨?_, fun c hc => isScalarPart_of_isWordPart (hword c hc)⟩
  rcases hd with hd | rfl | rfl
  · exact isScalarPart_of_isWordPart (by simp [isWordPart, hd])
  · rfl
  · rfl

/-- No leaf starts with a blank or with what opens an array or an inline table. -/
theorem LeafText.exists_cons (h : LeafText cs v) :
    ∃ c cs', cs = c :: cs' ∧ isSpace c = false ∧ c ≠ '[' ∧ c ≠ '\x7b' := by
  cases h with
  | boolean b => cases b <;> exact ⟨_, _, rfl, by decide⟩
  | string => exact ⟨_, _, rfl, by decide⟩
  | integer h =>
    obtain ⟨d, cs', rfl, hd, -⟩ := h.exists_cons
    -- No space, bracket or brace is part of a scalar.
    have hscalar : isScalarPart d = true :=
      isScalarPart_of_integerText h d List.mem_cons_self
    refine ⟨d, cs', rfl, ?_, ?_, ?_⟩
    · cases hspace : isSpace d with
      | false => rfl
      | true =>
        simp only [isSpace, Bool.or_eq_true, beq_iff_eq] at hspace
        rcases hspace with rfl | rfl <;> cases hscalar
    · rintro rfl
      cases hscalar
    · rintro rfl
      cases hscalar

theorem readValue?_of_ne {depth : Nat} (hbracket : c ≠ '[') (hbrace : c ≠ '\x7b')
    (cs : List Char) :
    readValue? (depth + 1) (c :: cs) =
      if c = '"' ∨ c = '\x27' then
        (readString? (c :: cs)).map fun (s, rest) => (.string (String.ofList s), rest)
      else readScalar? (c :: cs) := by
  unfold readValue?
  split <;> simp_all

/-- A leaf is read at the end of a line, however deep it stands. -/
theorem readValue?_of_leafText (h : LeafText cs v) (depth : Nat) (rest : List Char) :
    readValue? (depth + 1) (cs ++ '\n' :: rest) = some (v, '\n' :: rest) := by
  obtain ⟨c, cs', rfl, -, hbracket, hbrace⟩ := h.exists_cons
  rw [List.cons_append, readValue?_of_ne hbracket hbrace, ← List.cons_append]
  -- The value is told by its first character, and ends at the line's.
  generalize hcs : c :: cs' = cs at h
  cases h with
  | boolean b =>
    have hword : ∀ c ∈ (if b then "true" else "false").toList, isScalarPart c = true :=
      List.all_eq_true.1 (by cases b <;> rfl)
    have hne : ¬ (c = '"' ∨ c = '\x27') := by
      cases b <;> cases hcs <;> decide
    rw [if_neg hne, readScalar?_append hword]
    cases b <;> rfl
  | @integer _ n h hrange =>
    have hscalar := isScalarPart_of_integerText h
    have hne : ¬ (c = '"' ∨ c = '\x27') := by
      rintro (rfl | rfl) <;> cases hscalar _ (hcs ▸ List.mem_cons_self)
    rw [if_neg hne, readScalar?_append hscalar, scalar?_of_integerText h hrange]
    rfl
  | @string body s h =>
    cases hcs
    rw [if_pos (.inl rfl), List.cons_append, List.append_assoc]
    show (readString? ('"' :: (body ++ '"' :: '\n' :: rest))).map _ = _
    rw [readString?_of_charsText h rest]
    show some (Value.string (String.ofList s.toList), '\n' :: rest) = _
    rw [String.ofList_toList]

end Lexis.Toml

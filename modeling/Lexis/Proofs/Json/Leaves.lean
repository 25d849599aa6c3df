/-
  Lexis.Proofs.Json.Leaves

  Readers of numbers and strings in JSON texts.

  A number is read as far as it goes, so it has to stop before anything that could go on with it.
  A string ends at its closing quote, whatever stands behind it.
-/

import Lexis.Proofs.Json.Grammar
import Lexis.Proofs.Json.Read

namespace Lexis.Json

open Lexis.Text
open Reader (done char run block behind after filterMap seq orElse)

variable {cs ds r t w : List Char} {S : List Char → Prop}

/-! ## Space -/

/-- A text without the space before it. -/
def skipSpace (cs : List Char) : List Char :=
  cs.dropWhile isSpace

theorem exists_eq_append_skipSpace (cs : List Char) : ∃ w, IsSpace w ∧ cs = w ++ skipSpace cs :=
  ⟨cs.takeWhile isSpace, fun _ => List.mem_takeWhile_imp, List.takeWhile_append_dropWhile.symm⟩

/-- Space in front is skipped, and what it stands before is skipped on. -/
theorem skipSpace_append (hw : IsSpace w) (r : List Char) : skipSpace (w ++ r) = skipSpace r :=
  List.dropWhile_append_of_pos hw

/-! ## Numbers -/

/-- Reads digits and makes something of them. -/
def readDigits? {α : Type} (f : List Char → α) : Reader α :=
  filterMap (run isDigit) fun ds => some (f ds)

/-- Reads what stands before the point of a number. -/
def readInt? : Reader ℚ :=
  behind '0' (done 0) (readDigits? fun ds => ofDigits ds)

/-- Reads a point with digits, if it comes next. -/
def readFraction? : Reader ℚ :=
  behind '.' (readDigits? fun ds => ofDigits ds / 10 ^ ds.length) (done 0)

/-- Reads the digits of an exponent with their sign. -/
def readPower? : Reader ℤ :=
  behind '+' (readDigits? fun ds => ofDigits ds) <|
    behind '-' (readDigits? fun ds => -ofDigits ds) (readDigits? fun ds => ofDigits ds)

/-- Reads an exponent, if it comes next. -/
def readExponent? : Reader ℤ :=
  behind 'e' readPower? (behind 'E' readPower? (done 0))

/-- Reads a number without its sign. -/
def readMagnitude? : Reader ℚ :=
  filterMap (seq (seq readInt? readFraction?) readExponent?)
    fun p => some ((p.1.1 + p.1.2) * 10 ^ p.2)

/-- Reads a number. -/
def readNumber? : Reader ℚ :=
  behind '-' (filterMap readMagnitude? fun q => some (-q)) readMagnitude?

/-- Whether a character could go on with digits and a fraction. -/
def isFractionPart (c : Char) : Bool :=
  isDigit c || c == '.'

/-- Whether a character could go on with a number. -/
def isNumberPart (c : Char) : Bool :=
  isFractionPart c || c == 'e' || c == 'E'

theorem Avoids.isDigit (h : Avoids isFractionPart r) : Avoids Text.isDigit r :=
  h.mono fun _ hc => (Bool.or_eq_false_iff.1 hc).1

theorem Avoids.isFractionPart (h : Avoids isNumberPart r) : Avoids Json.isFractionPart r :=
  h.mono fun _ hc => (Bool.or_eq_false_iff.1 (Bool.or_eq_false_iff.1 hc).1).1

/-- The reader of digits reads them all, one or more. -/
theorem reads_digits {α : Type} (f : List Char → α) :
    Reads (readDigits? f) (fun t a => IsDigits t ∧ f t = a) (Avoids isDigit) :=
  ((Reads.run isDigit).filterMap _).congr fun t a => by
    simp [IsDigits]

theorem IsDigits.ne_nil (h : IsDigits ds) : ds ≠ [] :=
  h.1

theorem IsDigits.head?_ne {c : Char} (h : IsDigits ds) (hc : isDigit c = false) :
    ds.head? ≠ some c := by
  intro hhead
  rw [h.2 c (List.mem_of_head? hhead)] at hc
  cases hc

/-- The reader of the whole part: a zero alone, or digits that begin with another one. -/
theorem reads_int : Reads readInt? IntText (Avoids isDigit) := by
  refine ((Reads.done 0).behind (reads_digits _) (fun h => absurd rfl h.1.ne_nil)).congr
    fun t q => ?_
  constructor
  · rintro (⟨u, rfl, rfl, rfl⟩ | ⟨⟨hdigits, rfl⟩, hzero⟩)
    · exact .zero
    · exact .digits hdigits hzero
  · rintro (_ | ⟨hdigits, hzero⟩)
    · exact .inl ⟨[], rfl, rfl, rfl⟩
    · exact .inr ⟨⟨hdigits, rfl⟩, hzero⟩

/-- The reader of a fraction, which may be missing. -/
theorem reads_fraction : Reads readFraction? FractionText (Avoids isFractionPart) := by
  refine (((reads_digits _).mono fun r hr => hr.isDigit).behind (Reads.done 0)
    (fun _ hr => hr.head?_ne (by decide))).congr fun t q => ?_
  constructor
  · rintro (⟨u, rfl, hdigits, rfl⟩ | ⟨⟨rfl, rfl⟩, -⟩)
    · exact .digits hdigits
    · exact .none
  · rintro (_ | hdigits)
    · exact .inr ⟨⟨rfl, rfl⟩, by simp⟩
    · exact .inl ⟨_, rfl, hdigits, rfl⟩

theorem reads_power : Reads readPower? PowerText (Avoids isDigit) := by
  refine ((reads_digits _).behind ((reads_digits _).behind (reads_digits _) ?_) ?_).congr
    fun t e => ?_
  -- Digits are never empty, so what is looked for in front of them is theirs.
  · exact fun h => absurd rfl h.1.ne_nil
  · rintro a r (⟨u, hu, -⟩ | ⟨⟨hdigits, -⟩, -⟩) -
    · cases hu
    · exact absurd rfl hdigits.ne_nil
  · constructor
    · rintro (⟨u, rfl, hdigits, rfl⟩ | ⟨⟨u, rfl, hdigits, rfl⟩ | ⟨⟨hdigits, rfl⟩, -⟩, -⟩)
      · exact .plus hdigits
      · exact .minus hdigits
      · exact .digits hdigits
    · rintro (hdigits | hdigits | hdigits)
      · exact .inr ⟨.inr ⟨⟨hdigits, rfl⟩, hdigits.head?_ne (by decide)⟩,
          hdigits.head?_ne (by decide)⟩
      · exact .inl ⟨_, rfl, hdigits, rfl⟩
      · exact .inr ⟨.inl ⟨_, rfl, hdigits, rfl⟩, by simp⟩

/-- The reader of an exponent, which may be missing. -/
theorem reads_exponent : Reads readExponent? ExponentText (Avoids isNumberPart) := by
  have hpower : Reads readPower? PowerText (Avoids isNumberPart) :=
    reads_power.mono fun r hr => hr.isFractionPart.isDigit
  refine (hpower.behind (hpower.behind (Reads.done 0) ?_) ?_).congr fun t e => ?_
  -- Without an exponent what follows must not begin with its letter.
  · exact fun _ hr => hr.head?_ne (by decide)
  · exact fun _ hr => hr.head?_ne (by decide)
  · constructor
    · rintro (⟨u, rfl, h⟩ | ⟨⟨u, rfl, h⟩ | ⟨⟨rfl, rfl⟩, -⟩, -⟩)
      · exact .power (.inl rfl) h
      · exact .power (.inr rfl) h
      · exact .none
    · rintro (_ | ⟨rfl | rfl, h⟩)
      · exact .inr ⟨.inr ⟨⟨rfl, rfl⟩, by simp⟩, by simp⟩
      · exact .inl ⟨_, rfl, h⟩
      · exact .inr ⟨.inl ⟨_, rfl, h⟩, by simp⟩

/-- The reader of a number without its sign. -/
theorem reads_magnitude : Reads readMagnitude? MagnitudeText (Avoids isNumberPart) := by
  refine (((reads_int.seq reads_fraction ?_).seq reads_exponent ?_).filterMap _).congr fun t q => ?_
  -- A whole part ends in front of a point, of an exponent's letter and of the end.
  · rintro t q r (_ | hdigits) hr
    · exact hr.isDigit
    · exact Avoids.cons (by decide) _
  · rintro t e r (_ | ⟨rfl | rfl, h⟩) hr
    · exact hr.isFractionPart
    · exact Avoids.cons (by decide) _
    · exact Avoids.cons (by decide) _
  · constructor
    · rintro ⟨p, ⟨u, x, rfl, ⟨i, f, rfl, hi, hf⟩, hx⟩, hq⟩
      cases hq
      exact .parts hi hf hx
    · rintro ⟨hi, hf, hx⟩
      exact ⟨((_, _), _), ⟨_, _, rfl, ⟨_, _, rfl, hi, hf⟩, hx⟩, rfl⟩

theorem IntText.exists_cons {q : ℚ} (h : IntText cs q) :
    ∃ c ds, cs = c :: ds ∧ isDigit c = true := by
  cases h with
  | zero => exact ⟨'0', _, rfl, by decide⟩
  | digits h _ =>
    obtain ⟨c, ds, rfl⟩ := List.exists_cons_of_ne_nil h.ne_nil
    exact ⟨c, ds, rfl, h.2 c List.mem_cons_self⟩

/-- A number without its sign starts with a digit. -/
theorem MagnitudeText.exists_cons {q : ℚ} (h : MagnitudeText cs q) :
    ∃ c ds, cs = c :: ds ∧ isDigit c = true := by
  obtain ⟨hi, -, -⟩ := h
  obtain ⟨c, ds, rfl, hc⟩ := hi.exists_cons
  exact ⟨c, _, rfl, hc⟩

/-- The reader of numbers is right for the grammar's numbers. -/
theorem reads_number : Reads readNumber? NumberText (Avoids isNumberPart) := by
  refine ((reads_magnitude.filterMap _).behind reads_magnitude ?_).congr fun t q => ?_
  -- A number begins with a digit, which is no sign.
  · intro q r h _
    obtain ⟨c, ds, hnil, -⟩ := h.exists_cons
    cases hnil
  · constructor
    · rintro (⟨u, rfl, q', h, hq⟩ | ⟨h, -⟩)
      · cases hq
        exact .minus h
      · exact .plain h
    · rintro (h | h)
      · obtain ⟨c, ds, rfl, hc⟩ := h.exists_cons
        refine .inr ⟨h, ?_⟩
        rw [List.head?_cons]
        rintro heq
        cases heq
        exact absurd hc (by decide)
      · exact .inl ⟨_, rfl, _, h, rfl⟩

/-! ## Characters in strings -/

/-- Reads the four digits of a code unit. -/
def readUnit? : Reader Nat :=
  filterMap (block 4 fun ds => ds.all fun d => (hexValue? d).isSome) fun ds => some (ofHex ds)

/-- Reads a surrogate pair behind its first `\u`. -/
def readPair? : Reader Char :=
  filterMap (seq (seq readUnit? (block 2 fun cs => cs == ['\\', 'u'])) readUnit?) fun p =>
    if isHighSurrogate p.1.1 && isLowSurrogate p.2 then
      some (Char.ofNat (ofSurrogates p.1.1 p.2))
    else none

/-- Reads a code point that needs no pair. -/
def readSingle? : Reader Char :=
  filterMap readUnit? fun n => if n.isValidChar then some (Char.ofNat n) else none

/-- Reads a character in one of its written forms. -/
def readChar? : Reader Char :=
  behind '\\'
    (behind 'u' (orElse readPair? readSingle?) (filterMap char fun s => shortEscapes.lookup s))
    (filterMap char fun c => if isPlain c then some c else none)

theorem reads_unit : Reads readUnit? IsUnit S := by
  refine ((Reads.block 4 _).filterMap _).congr fun t n => ?_
  simp [IsUnit, List.all_eq_true, and_assoc]

theorem toNat_ofNat {n : Nat} (h : n.isValidChar) : (Char.ofNat n).toNat = n := by
  rw [Char.ofNat, dif_pos h]
  rfl

/-- A surrogate pair makes a code point. -/
theorem isValidChar_ofSurrogates {m n : Nat} (hm : isHighSurrogate m = true)
    (hn : isLowSurrogate n = true) : (ofSurrogates m n).isValidChar := by
  simp only [isHighSurrogate, isLowSurrogate, Bool.and_eq_true, decide_eq_true_eq] at hm hn
  have hrange : 0xDFFF < ofSurrogates m n ∧ ofSurrogates m n < 0x110000 := by
    unfold ofSurrogates
    omega
  exact .inr hrange

theorem isHighSurrogate_toNat (c : Char) : isHighSurrogate c.toNat = false := by
  have hvalid : c.toNat < 0xD800 ∨ 0xDFFF < c.toNat ∧ c.toNat < 0x110000 := c.valid
  simp only [isHighSurrogate, Bool.and_eq_false_iff, decide_eq_false_iff_not]
  omega

/-- The reader of two units that make up one character. -/
theorem reads_pair :
    Reads readPair? (fun t c => ∃ ds es m n, t = ds ++ '\\' :: 'u' :: es ∧ IsUnit ds m ∧
      IsUnit es n ∧ isHighSurrogate m = true ∧ isLowSurrogate n = true ∧
      c.toNat = ofSurrogates m n) S := by
  have hunit : Reads readUnit? IsUnit fun _ => True := reads_unit
  have hmark : Reads (block 2 fun cs => cs == ['\\', 'u'])
      (fun t cs => t = cs ∧ cs.length = 2 ∧ (cs == ['\\', 'u']) = true) fun _ => True :=
    Reads.block 2 _
  -- Two units with the mark between, looked at once both are read.
  refine (((hunit.seq hmark (fun _ _ => trivial)).seq reads_unit (fun _ _ => trivial)).filterMap
    _).congr fun t c => ?_
  constructor
  · rintro ⟨⟨⟨m, mark⟩, n⟩, ⟨_, es, rfl, ⟨ds, w, rfl, hds, hw, -, hmark⟩, hes⟩, hc⟩
    split at hc
    next hsurrogates =>
      obtain ⟨hm, hn⟩ := Bool.and_eq_true_iff.1 hsurrogates
      rw [← Option.some.inj hc]
      refine ⟨ds, es, m, n, ?_, hds, hes, hm, hn, ?_⟩
      · rw [hw, eq_of_beq hmark, List.append_assoc]
        rfl
      · exact toNat_ofNat (isValidChar_ofSurrogates hm hn)
    next => cases hc
  · rintro ⟨ds, es, m, n, rfl, hds, hes, hm, hn, hc⟩
    refine ⟨((m, ['\\', 'u']), n),
      ⟨ds ++ ['\\', 'u'], es, by simp, ⟨ds, _, rfl, hds, rfl, rfl, rfl⟩, hes⟩, ?_⟩
    rw [if_pos (by rw [hm, hn]; rfl), ← hc, Char.ofNat_toNat]

/-- The reader of one unit that is a character. -/
theorem reads_single : Reads readSingle? (fun t c => IsUnit t c.toNat) S := by
  refine (reads_unit.filterMap _).congr fun t c => ?_
  constructor
  · rintro ⟨n, hn, hc⟩
    split at hc
    next hvalid =>
      rwa [← Option.some.inj hc, toNat_ofNat hvalid]
    next => cases hc
  · intro h
    have hvalid : c.toNat.isValidChar := c.valid
    exact ⟨c.toNat, h, by rw [if_pos hvalid, Char.ofNat_toNat]⟩

/-- What is no surrogate starts no pair. -/
theorem readPair?_of_single {c : Char} (h : IsUnit t c.toNat) (r : List Char) :
    readPair? (t ++ r) = none := by
  have hunit : readUnit? (t ++ r) = some (c.toNat, r) :=
    (reads_unit (S := fun _ => True)).complete h trivial
  -- Whatever stands behind, the first unit is the one that was read, which is no high surrogate.
  have hpair : ∀ p, seq (seq readUnit? (block 2 fun cs => cs == ['\\', 'u'])) readUnit? (t ++ r) =
      some p → p.1.1.1 = c.toNat := by
    intro p hp
    simp only [seq, hunit, Option.bind_some] at hp
    obtain ⟨q, hq, hp⟩ := Option.bind_eq_some_iff.1 hp
    obtain ⟨q', -, rfl⟩ := Option.map_eq_some_iff.1 hq
    obtain ⟨q'', -, rfl⟩ := Option.map_eq_some_iff.1 hp
    rfl
  rw [readPair?, filterMap]
  cases hseq : seq (seq readUnit? (block 2 fun cs => cs == ['\\', 'u'])) readUnit? (t ++ r) with
  | none => rfl
  | some p =>
    rw [Option.bind_some, hpair p hseq, isHighSurrogate_toNat, Bool.false_and, if_neg (by decide),
      Option.map_none]

/-- Short escapes are looked up by their letter, and no letter stands twice. -/
theorem lookup_shortEscapes {s c : Char} :
    shortEscapes.lookup s = some c ↔ (s, c) ∈ shortEscapes := by
  constructor
  · intro h
    obtain ⟨l₁, l₂, hsplit, -⟩ := List.lookup_eq_some_iff.1 h
    rw [hsplit]
    simp
  · intro h
    have hall : ∀ p ∈ shortEscapes, shortEscapes.lookup p.1 = some p.2 := by decide +kernel
    exact hall _ h

/-- The reader of one character of a string, in whichever way it is written. -/
theorem reads_char : Reads readChar? CharText S := by
  refine (((reads_pair.orElse reads_single ?_).behind (Reads.char.filterMap _) ?_).behind
    (Reads.char.filterMap _) ?_).congr fun t c => ?_
  -- The pair is tried first; on a single unit it is refused.
  · exact fun h _ => readPair?_of_single h _
  · rintro a r ⟨b, hb, -⟩
    cases hb
  · rintro a r ⟨b, hb, -⟩
    cases hb
  · constructor
    · rintro (⟨_, rfl, ⟨u, rfl, ⟨ds, es, m, n, rfl, hds, hes, hm, hn, hc⟩ | hunit⟩ |
        ⟨⟨s, rfl, hs⟩, -⟩⟩ | ⟨⟨d, rfl, hd⟩, -⟩)
      · exact .pair hds hes hm hn hc
      · exact .unit hunit
      · exact .short (lookup_shortEscapes.1 hs)
      · split at hd
        next hplain =>
          cases hd
          exact .plain hplain
        next => cases hd
    · rintro (hplain | hs | hunit | ⟨hds, hes, hm, hn, hc⟩)
      · refine .inr ⟨⟨c, rfl, by rw [if_pos hplain]⟩, ?_⟩
        rw [List.head?_cons, ne_eq, Option.some.injEq]
        rintro rfl
        exact absurd hplain (by decide)
      -- The letter of a code point is none of the short escapes.
      · have hall : ∀ p ∈ shortEscapes, p.1 ≠ 'u' := by decide +kernel
        refine .inl ⟨_, rfl, .inr ⟨⟨_, rfl, lookup_shortEscapes.2 hs⟩, ?_⟩⟩
        rw [List.head?_cons, ne_eq, Option.some.injEq]
        exact hall _ hs
      · exact .inl ⟨_, rfl, .inl ⟨_, rfl, .inr hunit⟩⟩
      · exact .inl ⟨_, rfl, .inl ⟨_, rfl, .inl ⟨_, _, _, _, rfl, hds, hes, hm, hn, hc⟩⟩⟩

/-! ## Strings -/

/-- A written character is neither nothing nor the quote that ends a string. -/
theorem CharText.head?_ne {c : Char} (h : CharText t c) : t ≠ [] ∧ t.head? ≠ some '"' := by
  cases h with
  | plain h =>
    refine ⟨List.cons_ne_nil _ _, ?_⟩
    rw [List.head?_cons, ne_eq, Option.some.injEq]
    rintro rfl
    exact absurd h (by decide)
  | short _ => exact ⟨List.cons_ne_nil _ _, by simp⟩
  | unit _ => exact ⟨List.cons_ne_nil _ _, by simp⟩
  | pair _ _ _ _ _ => exact ⟨List.cons_ne_nil _ _, by simp⟩

/-- Reading a character leaves less: the measure of the string reader. -/
theorem length_of_readChar? {c : Char} (h : readChar? cs = some (c, r)) : r.length < cs.length := by
  obtain ⟨t, rfl, ht⟩ := (reads_char (S := fun _ => True)).sound h
  have hpos := List.length_pos_iff.2 ht.head?_ne.1
  rw [List.length_append]
  omega

/-- Reads the characters of a string up to the quote that ends it. -/
def readChars? (cs : List Char) : Option (List Char × List Char) :=
  if cs.head? = some '"' then some ([], cs.tail)
  else
    match h : readChar? cs with
    | none => none
    | some (c, r) =>
      have : r.length < cs.length := length_of_readChar? h
      (readChars? r).map fun p => (c :: p.1, p.2)
termination_by cs.length

/-- The string reader goes on behind a character. -/
theorem readChars?_of_char {c : Char} (hhead : cs.head? ≠ some '"')
    (hchar : readChar? cs = some (c, r)) :
    readChars? cs = (readChars? r).map fun p => (c :: p.1, p.2) := by
  rw [readChars?, if_neg hhead]
  split
  next hnone =>
    rw [hchar] at hnone
    cases hnone
  next hsome =>
    rw [hchar] at hsome
    cases hsome
    rfl

/-- Reads a string from its first quote to its last. -/
def readString? : Reader String :=
  after '"' (filterMap readChars? fun cs => some (String.ofList cs))

/-- The reader of a string's characters up to its closing quote, by induction on what is left. -/
theorem reads_chars :
    Reads readChars? (fun t cs => ∃ body, t = body ++ ['"'] ∧ CharsText body cs) S where
  sound := by
    intro cs
    -- On the characters left, each of which takes one at least.
    induction hn : cs.length using Nat.strongRecOn generalizing cs with
    | ind n ih =>
      intro s r hread
      rw [readChars?] at hread
      split at hread
      next hhead =>
        obtain ⟨ds, rfl⟩ := List.head?_eq_some_iff.1 hhead
        cases hread
        exact ⟨['"'], rfl, [], rfl, .nil⟩
      next hhead =>
        split at hread
        next => cases hread
        next c r' hchar =>
          obtain ⟨⟨s', r''⟩, hrest, heq⟩ := Option.map_eq_some_iff.1 hread
          cases heq
          obtain ⟨t, rfl, ht⟩ := (reads_char (S := fun _ => True)).sound hchar
          obtain ⟨_, rfl, body, rfl, hbody⟩ := ih _ (hn ▸ length_of_readChar? hchar) rfl hrest
          exact ⟨t ++ (body ++ ['"']), by simp, t ++ body, by simp, .cons ht hbody⟩
  complete := by
    rintro _ s r ⟨body, rfl, hbody⟩ -
    -- On the characters of the string.
    induction hbody with
    | nil =>
      rw [readChars?]
      rfl
    | @cons t ts cs c ht hs ih =>
      obtain ⟨hne, hquote⟩ := ht.head?_ne
      have hchar : readChar? (t ++ (ts ++ ['"'] ++ r)) = some (c, ts ++ ['"'] ++ r) :=
        (reads_char (S := fun _ => True)).complete ht trivial
      have hhead : (t ++ (ts ++ ['"'] ++ r)).head? ≠ some '"' := by
        obtain ⟨d, ds, rfl⟩ := List.exists_cons_of_ne_nil hne
        exact hquote
      rw [List.append_assoc t, List.append_assoc t, readChars?_of_char hhead hchar, ih,
        Option.map_some]

/-- The reader of strings is right for the grammar's strings. -/
theorem reads_string : Reads readString? StringText S := by
  refine (reads_chars.filterMap _ |>.after '"').congr fun t s => ?_
  constructor
  · rintro ⟨_, rfl, cs, ⟨body, rfl, hbody⟩, hs⟩
    rw [← Option.some.inj hs]
    exact .quoted (by rwa [String.toList_ofList])
  · rintro ⟨hbody⟩
    exact ⟨_, rfl, _, ⟨_, rfl, hbody⟩, by rw [String.ofList_toList]⟩

end Lexis.Json

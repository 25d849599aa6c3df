/-
  Lexis.Proofs.Number.Value

  The values of number tokens.

  `denoted` reads a number place by place, digit after digit, and knows nothing of coefficients and
  exponents. The numeral that is read from the text of a token denotes the same rational, and the
  value of the token is the double nearest to it.
-/

import Lexis.Proofs.Number.Nearest
import Lexis.Proofs.Scan.Kinds

namespace Lexis

open Lexis.Grammar Lexis.Text
open scoped Computability

/-! ## What a number denotes -/

namespace Numeral

/-- The number that a digit stands for. -/
def digitValue (c : Char) : Nat :=
  c.toNat - '0'.toNat

/-- Digits in front of the point: the last one counts ones. -/
def wholeValue : List Char → ℚ
  | [] => 0
  | d :: ds => digitValue d * 10 ^ ds.length + wholeValue ds

/-- Digits behind the point: the first one counts tenths. -/
def fractionValue : List Char → ℚ
  | [] => 0
  | d :: ds => (digitValue d + fractionValue ds) / 10

/-- The rational that a number denotes: digits, and maybe a point and digits behind it. -/
def denoted (w : List Char) : ℚ :=
  wholeValue (w.takeWhile (· ≠ '.')) + fractionValue ((w.dropWhile (· ≠ '.')).drop 1)

/-- A text of digits only. -/
def IsDigits (ds : List Char) : Prop :=
  ds ≠ [] ∧ ∀ d ∈ ds, isDigit d = true

/-- A row of zeros. -/
abbrev zeros (k : Nat) : List Char :=
  List.replicate k '0'

variable {w ds fs : List Char} {c : Char}

theorem mem_digits_iff : ds ∈ digit * digit∗ ↔ IsDigits ds := by
  rw [mem_digits]
  constructor
  · rintro ⟨c, cs, rfl, hall⟩
    exact ⟨List.cons_ne_nil c cs, hall⟩
  · rintro ⟨hne, hall⟩
    obtain ⟨c, cs, rfl⟩ := List.exists_cons_of_ne_nil hne
    exact ⟨c, cs, rfl, hall⟩

/-- The language of numbers: digits, or digits on both sides of a point. -/
theorem mem_number_iff :
    w ∈ number ↔ IsDigits w ∨ ∃ ds fs, IsDigits ds ∧ IsDigits fs ∧ w = ds ++ '.' :: fs := by
  simp only [mem_number, mem_digits_iff]
  constructor
  · rintro ⟨ds, fs, rfl, hds, rfl | ⟨es, rfl, hes⟩⟩
    · rw [List.append_nil]
      exact .inl hds
    · exact .inr ⟨ds, es, hds, hes, rfl⟩
  · rintro (hw | ⟨ds, fs, hds, hfs, rfl⟩)
    · exact ⟨w, [], w.append_nil.symm, hw, .inl rfl⟩
    · exact ⟨ds, _, rfl, hds, .inr ⟨fs, rfl, hfs⟩⟩

theorem IsDigits.ne_point (h : IsDigits ds) (hc : c ∈ ds) : c ≠ '.' := by
  rintro rfl
  exact absurd (h.2 _ hc) (by decide)

theorem denoted_whole (h : IsDigits ds) : denoted ds = wholeValue ds := by
  have hall : ∀ c ∈ ds, decide (c ≠ '.') = true := fun c hc => decide_eq_true (h.ne_point hc)
  rw [denoted, List.takeWhile_eq_self_iff.2 hall, List.dropWhile_eq_nil_iff.2 hall]
  exact add_zero _

/-- Behind the point stands a fraction. -/
theorem denoted_fraction (h : IsDigits ds) :
    denoted (ds ++ '.' :: fs) = wholeValue ds + fractionValue fs := by
  have hall : ∀ c ∈ ds, decide (c ≠ '.') = true := fun c hc => decide_eq_true (h.ne_point hc)
  rw [denoted, List.takeWhile_append_of_pos hall, List.dropWhile_append_of_pos hall,
    List.takeWhile_cons_of_neg (by decide), List.dropWhile_cons_of_neg (by decide),
    List.append_nil]
  rfl

/-! ## What is read from it -/

/-- Digits behind move those in front by their places. -/
theorem wholeValue_append (ds fs : List Char) :
    wholeValue (ds ++ fs) = wholeValue ds * 10 ^ fs.length + wholeValue fs := by
  induction ds with
  | nil => simp [wholeValue]
  | cons d ds ih =>
    rw [List.cons_append, wholeValue, wholeValue, ih, List.length_append, pow_add]
    ring

/-- A fraction is its digits over a power of ten. -/
theorem fractionValue_eq (fs : List Char) :
    fractionValue fs = wholeValue fs / 10 ^ fs.length := by
  induction fs with
  | nil => simp [fractionValue, wholeValue]
  | cons d ds ih =>
    rw [fractionValue, wholeValue, ih, List.length_cons, pow_succ]
    field_simp

theorem ofDigits_concat (ds : List Char) (d : Char) :
    ofDigits (ds ++ [d]) = 10 * ofDigits ds + digitValue d := by
  rw [ofDigits, List.foldl_append]
  rfl

/-- The reader's number is the value of the digits, by induction from the right. -/
theorem ofDigits_eq (ds : List Char) : (ofDigits ds : ℚ) = wholeValue ds := by
  induction ds using List.reverseRecOn with
  | nil => rfl
  | append_singleton ds d ih =>
    rw [ofDigits_concat, wholeValue_append, ← ih]
    simp [wholeValue, mul_comm]

theorem readDecimal?_whole (h : IsDigits ds) :
    readDecimal? ds = some (ofDigits ds, 0) := by
  have hisEmpty : ds.isEmpty = false := List.isEmpty_eq_false_iff.2 h.1
  simp [readDecimal?, List.takeWhile_eq_self_iff.2 h.2, List.dropWhile_eq_nil_iff.2 h.2, hisEmpty,
    readExponent?]

/-- The reader takes all digits as one number and counts those behind the point. -/
theorem readDecimal?_fraction (hds : IsDigits ds) (hfs : IsDigits fs) :
    readDecimal? (ds ++ '.' :: fs) = some (ofDigits (ds ++ fs), -(fs.length : ℤ)) := by
  have hisEmpty : ds.isEmpty = false := List.isEmpty_eq_false_iff.2 hds.1
  have hpoint : isDigit '.' = false := by decide
  simp [readDecimal?, List.takeWhile_append_of_pos hds.2, List.dropWhile_append_of_pos hds.2,
    List.takeWhile_eq_self_iff.2 hfs.2, List.dropWhile_eq_nil_iff.2 hfs.2, hpoint, hisEmpty,
    readExponent?]

/-- A digit is no sign. -/
theorem splitSign_of_isDigit {cs : List Char} (hc : isDigit c = true) :
    splitSign (c :: cs) = (false, c :: cs) := by
  unfold splitSign
  split
  next heq =>
    obtain ⟨rfl, -⟩ := List.cons.inj heq
    exact absurd hc (by decide)
  next heq =>
    obtain ⟨rfl, -⟩ := List.cons.inj heq
    exact absurd hc (by decide)
  next => rfl

theorem splitSign_append (h : IsDigits ds) (r : List Char) :
    splitSign (ds ++ r) = (false, ds ++ r) := by
  obtain ⟨c, cs, rfl⟩ := List.exists_cons_of_ne_nil h.1
  exact splitSign_of_isDigit (h.2 c List.mem_cons_self)

/-- A number is read as a decimal numeral, and nothing is lost in it. -/
theorem read?_of_mem_number (h : w ∈ number) :
    ∃ (coefficient : Nat) (exponent : ℤ), read? w = some (.decimal false coefficient exponent) ∧
      (coefficient * 10 ^ exponent : ℚ) = denoted w := by
  -- With a point the digits are one number, moved by those behind the point.
  rcases mem_number_iff.1 h with hw | ⟨ds, fs, hds, hfs, rfl⟩
  · have hsign := splitSign_append hw []
    rw [List.append_nil] at hsign
    refine ⟨ofDigits w, 0, ?_, ?_⟩
    · rw [read?, hsign]
      simp only [readDecimal?_whole hw]
    · rw [zpow_zero, mul_one, ofDigits_eq, denoted_whole hw]
  · refine ⟨ofDigits (ds ++ fs), -fs.length, ?_, ?_⟩
    · rw [read?, splitSign_append hds]
      simp only [readDecimal?_fraction hds hfs]
    · rw [denoted_fraction hds, ofDigits_eq, wholeValue_append, fractionValue_eq, zpow_neg,
        zpow_natCast]
      field_simp

/-! ## Zeros that do not count -/

/-- A text with zeros put in front of it, and zeros behind its fraction, which are behind a point
    of their own if the text has none. -/
inductive Padded (w : List Char) : List Char → Prop where
  | leading (j : Nat) : Padded w (zeros j ++ w)
  | fraction (j k : Nat) (h : '.' ∈ w) : Padded w (zeros j ++ w ++ zeros k)
  | point (j k : Nat) (h : '.' ∉ w) : Padded w (zeros j ++ w ++ '.' :: zeros (k + 1))

theorem isDigit_of_mem_zeros {k : Nat} (h : c ∈ zeros k) : isDigit c = true := by
  obtain rfl := List.eq_of_mem_replicate h
  rfl

theorem isDigits_zeros (k : Nat) : IsDigits (zeros (k + 1)) :=
  ⟨List.cons_ne_nil _ _, fun _ => isDigit_of_mem_zeros⟩

theorem IsDigits.zeros_append (h : IsDigits ds) (k : Nat) : IsDigits (zeros k ++ ds) :=
  ⟨List.append_ne_nil_of_right_ne_nil _ h.1,
    fun _ hc => (List.mem_append.1 hc).elim isDigit_of_mem_zeros (h.2 _)⟩

theorem IsDigits.append_zeros (h : IsDigits ds) (k : Nat) : IsDigits (ds ++ zeros k) :=
  ⟨List.append_ne_nil_of_left_ne_nil h.1 _,
    fun _ hc => (List.mem_append.1 hc).elim (h.2 _) isDigit_of_mem_zeros⟩

theorem IsDigits.point_not_mem (h : IsDigits ds) : '.' ∉ ds :=
  fun hc => h.ne_point hc rfl

@[simp] theorem wholeValue_zeros (k : Nat) : wholeValue (zeros k) = 0 := by
  induction k with
  | zero => rfl
  | succ k ih => simp [List.replicate_succ, wholeValue, digitValue, ih]

theorem wholeValue_zeros_append (k : Nat) (ds : List Char) :
    wholeValue (zeros k ++ ds) = wholeValue ds := by
  rw [wholeValue_append, wholeValue_zeros, zero_mul, zero_add]

theorem fractionValue_append_zeros (fs : List Char) (k : Nat) :
    fractionValue (fs ++ zeros k) = fractionValue fs := by
  rw [fractionValue_eq, fractionValue_eq, wholeValue_append, wholeValue_zeros, add_zero,
    List.length_append, List.length_replicate, pow_add]
  exact mul_div_mul_right _ _ (by positivity)

/-- Padding leaves a number a number, and it denotes the same. -/
theorem Padded.denoted_eq {w' : List Char} (h : Padded w w') (hw : w ∈ number) :
    w' ∈ number ∧ denoted w' = denoted w := by
  rw [mem_number_iff] at hw ⊢
  rcases hw with hw | ⟨ds, fs, hds, hfs, rfl⟩
  · cases h with
    | leading j =>
      have hdigits := hw.zeros_append j
      refine ⟨.inl hdigits, ?_⟩
      rw [denoted_whole hdigits, denoted_whole hw, wholeValue_zeros_append]
    | fraction j k hpoint => exact absurd hpoint hw.point_not_mem
    | point j k hpoint =>
      have hdigits := hw.zeros_append j
      refine ⟨.inr ⟨_, _, hdigits, isDigits_zeros k, rfl⟩, ?_⟩
      rw [denoted_fraction hdigits, denoted_whole hw, wholeValue_zeros_append, fractionValue_eq,
        wholeValue_zeros, zero_div, add_zero]
  · -- Only the digits in front of the point and those behind it have changed.
    obtain ⟨j, k, rfl⟩ : ∃ j k, w' = (zeros j ++ ds) ++ '.' :: (fs ++ zeros k) := by
      cases h with
      | leading j => exact ⟨j, 0, by simp⟩
      | fraction j k hpoint => exact ⟨j, k, by simp⟩
      | point j k hpoint => exact absurd (by simp) hpoint
    have hwhole := hds.zeros_append j
    refine ⟨.inr ⟨_, _, hwhole, hfs.append_zeros k, rfl⟩, ?_⟩
    rw [denoted_fraction hwhole, denoted_fraction hds, wholeValue_zeros_append,
      fractionValue_append_zeros]

end Numeral

/-! ## The nearest double -/

namespace Binary64

/-- `x` is the double nearest to `q`, with its sign and at both ends of the numbers: it is infinite
    from the threshold on, and down from the smallest normal number it is subnormal, then zero. -/
structure IsNearest (q : ℚ) (x : Binary64) : Prop where
  isNaN : x.isNaN = false
  negative : x.negative = false
  bits_iff : ∀ m, RoundsTo q m ↔ m = x.bits
  infinite_iff : x.bits = infinite ↔ overflowThreshold ≤ q
  subnormal_iff : x.bits < 2 ^ 52 ↔ q < (2 ^ 53 - 1) * 2 ^ (-1075 : ℤ)
  zero_iff : x.bits = 0 ↔ q ≤ 2 ^ (-1075 : ℤ)

variable {q : ℚ}

/-- What a number rounds to is nearest to it as the claim on literals has it. -/
theorem RoundsTo.isNearest {m : Nat} (h : RoundsTo q m) : IsNearest q ⟨false, m⟩ := by
  have hbits : bits ⟨false, m⟩ = m := Nat.zero_add m
  refine ⟨decide_eq_false (Nat.not_lt.2 h.le_infinite), rfl, fun n => ?_, ?_, ?_, ?_⟩
  · rw [hbits]
    constructor
    -- What is nearest is unique.
    · intro hn
      exact hn.eq h
    · rintro rfl
      exact h
  · rw [hbits]
    exact h.eq_infinite_iff
  · rw [hbits]
    exact h.lt_normal_iff
  · rw [hbits]
    exact h.eq_zero_iff

end Binary64

namespace Token

open Numeral Binary64

variable {t : Token} {source : String}

/-- The text of a number token is in the language of numbers. -/
theorem mem_number_of_isToken {kind : Kind} {w : List Char} (h : IsToken kind w)
    (hkind : kind = .number) : w ∈ number := by
  -- No symbol, word or string is of the kind of numbers.
  cases h with
  | symbol h =>
    have hall : ∀ entry ∈ symbols, entry.2 ≠ .number := by decide +kernel
    exact absurd hkind (hall _ h)
  | @word w _ =>
    cases hword : Keyword.ofWord? (String.ofList w) with
    | none =>
      rw [hword] at hkind
      cases hkind
    | some k =>
      have hkeyword := (Keyword.ofWord?_eq_some_iff.1 hword).1.1
      rw [hword, Option.getD_some] at hkind
      rw [hkind] at hkeyword
      cases hkeyword
  | number h => exact h
  | string _ => cases hkind

theorem mem_number_of_kind (h : t ∈ tokens source) (hkind : t.kind = .number) :
    t.lexeme.toList ∈ number := by
  rcases cases_of_mem_tokens h with ⟨heof, -⟩ | ⟨herror, -⟩ | htoken
  · rw [heof] at hkind
    cases hkind
  · rw [herror] at hkind
    cases hkind
  · exact mem_number_of_isToken htoken hkind

/-- The value of a number token, from its text alone. -/
theorem value?_of_mem_number (hkind : t.kind = .number) (hlexeme : t.lexeme.toList ∈ number) :
    ∃ m, t.value? = some ⟨false, m⟩ ∧ RoundsTo (denoted t.lexeme.toList) m := by
  obtain ⟨coefficient, exponent, hread, hdenoted⟩ := read?_of_mem_number hlexeme
  refine ⟨decimalMagnitude coefficient exponent, ?_, ?_⟩
  · rw [value?, if_pos hkind, hread]
    rfl
  · rw [← hdenoted]
    exact decimalMagnitude_roundsTo coefficient exponent

/-- Every number token that a source yields has a value, which is the double nearest to what the
    digits of its text denote in base ten. Zeros in front of the digits or behind those of the
    fraction do not change it. -/
theorem value?_of_yields (hsize : source.utf8ByteSize ≤ maxSize) (h : Yields source t)
    (hkind : t.kind = .number) :
    t.lexeme.toList ∈ number ∧
      ∃ x, t.value? = some x ∧ IsNearest (denoted t.lexeme.toList) x ∧
        ∀ u : Token, u.kind = .number → Padded t.lexeme.toList u.lexeme.toList →
          u.value? = some x := by
  have hlexeme := mem_number_of_kind (mem_tokens_of_yields hsize h) hkind
  obtain ⟨m, hvalue, hround⟩ := value?_of_mem_number hkind hlexeme
  refine ⟨hlexeme, ⟨false, m⟩, hvalue, hround.isNearest, fun u hu hpadded => ?_⟩
  obtain ⟨hnumber, hdenoted⟩ := hpadded.denoted_eq hlexeme
  obtain ⟨n, hvalue', hround'⟩ := value?_of_mem_number hu hnumber
  rw [hdenoted] at hround'
  rw [hvalue', hround'.eq hround]

/-- In the middle of two numbers the even one is taken, with zeros around it or without. -/
theorem value?_of_yields_halfway :
    Yields "9007199254740993.0" ⟨.number, "9007199254740993.0", 1, ⟨0, 18⟩⟩ ∧
      denoted "9007199254740993.0".toList = 2 ^ 53 + 1 ∧
      value? ⟨.number, "9007199254740993.0", 1, ⟨0, 18⟩⟩ = some ⟨false, 0x4340000000000000⟩ ∧
      Binary64.IsNearest (2 ^ 53 + 1) ⟨false, 0x4340000000000000⟩ ∧
      value? ⟨.number, "009007199254740993.00", 1, ⟨0, 21⟩⟩ = some ⟨false, 0x4340000000000000⟩ := by
  have htokens : tokenize "9007199254740993.0" =
      .ok [⟨.number, "9007199254740993.0", 1, ⟨0, 18⟩⟩, ⟨.eof, "", 1, ⟨18, 18⟩⟩] := by
    decide +kernel
  have hyields : Yields "9007199254740993.0" ⟨.number, "9007199254740993.0", 1, ⟨0, 18⟩⟩ :=
    .all htokens (by decide)
  have hdenoted : denoted "9007199254740993.0".toList = 2 ^ 53 + 1 := by
    decide +kernel
  have hvalue : value? ⟨.number, "9007199254740993.0", 1, ⟨0, 18⟩⟩ =
      some ⟨false, 0x4340000000000000⟩ := by
    decide +kernel
  obtain ⟨-, x, hx, hnearest, hpadded⟩ := value?_of_yields (by decide) hyields rfl
  obtain rfl := Option.some.inj (hx.symm.trans hvalue)
  dsimp only at hnearest
  rw [hdenoted] at hnearest
  exact ⟨hyields, hdenoted, hvalue, hnearest, hpadded _ rfl (.fraction 2 1 (by decide))⟩

end Token

end Lexis

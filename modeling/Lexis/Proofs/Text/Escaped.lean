/-
  Lexis.Proofs.Text.Escaped

  Escaped texts can be read back.

  Every character is written as itself, as one of a few pairs that start with a backslash, or by
  its code point; `escapeChar_cases` says so once, and the rest goes by these three cases. The
  backslash is never written as itself, so it is clear at each place which of them stands there,
  whatever the choice of characters to be escaped was.
-/

import Lexis.Proofs.Text.Digits
import Lexis.Text.Escaped

namespace Lexis.Text

variable {escapes : Escapes} {c : Char} {cs r : List Char}

/-! ## The forms of a character -/

/-- The characters that a backslash and one more character stand for, each behind that. -/
def shortEscapes : List (Char × Char) :=
  [('0', '\x00'), ('t', '\t'), ('r', '\r'), ('n', '\n'), ('\\', '\\'), ('"', '"'),
    ('\x27', '\x27')]

/-- A character is written as itself, with a short escape, or by its code point. -/
theorem escapeChar_cases (escapes : Escapes) (c : Char) :
    (escapeChar escapes c = [c] ∧ c ≠ '\\' ∧ c ≠ '\n') ∨
      (∃ s, (s, c) ∈ shortEscapes ∧ escapeChar escapes c = ['\\', s]) ∨
      escapeChar escapes c = codePointEscape c := by
  unfold escapeChar
  split
  · exact .inr (.inl ⟨'0', by simp [shortEscapes], rfl⟩)
  · exact .inr (.inl ⟨'t', by simp [shortEscapes], rfl⟩)
  · exact .inr (.inl ⟨'r', by simp [shortEscapes], rfl⟩)
  · exact .inr (.inl ⟨'n', by simp [shortEscapes], rfl⟩)
  · exact .inr (.inl ⟨'\\', by simp [shortEscapes], rfl⟩)
  · exact .inr (.inl ⟨'"', by simp [shortEscapes], rfl⟩)
  next hfeed hbackslash _ =>
    -- What is left may be escaped or not, depending on where the text stands.
    by_cases hapostrophe : c = '\x27'
    · subst hapostrophe
      by_cases hescape : escapes.apostrophe = true
      · exact .inr (.inl ⟨'\x27', by simp [shortEscapes], by simp [hescape]⟩)
      · exact .inl ⟨by simp [hescape], by decide, by decide⟩
    · rw [if_neg hapostrophe]
      split
      · exact .inr (.inr rfl)
      · split
        · exact .inr (.inr rfl)
        · exact .inl ⟨rfl, hbackslash, hfeed⟩

/-! ## Reading one character -/

/-- Reads one character in its written form. -/
def readEscape : List Char → Option (Char × List Char)
  | '\\' :: 'u' :: '\x7b' :: cs =>
    some (Char.ofNat (ofHex (cs.takeWhile (· ≠ '\x7d'))), (cs.dropWhile (· ≠ '\x7d')).tail)
  | '\\' :: s :: cs => some ((shortEscapes.lookup s).getD s, cs)
  | c :: cs => some (c, cs)
  | [] => none

theorem readEscape_of_ne (hc : c ≠ '\\') (cs : List Char) :
    readEscape (c :: cs) = some (c, cs) := by
  unfold readEscape
  split
  next heq => exact absurd (List.cons.inj heq).1 hc
  next heq => exact absurd (List.cons.inj heq).1 hc
  next heq =>
    obtain ⟨rfl, rfl⟩ := List.cons.inj heq
    rfl
  next heq => cases heq

/-- A short escape reads back as its character. -/
theorem readEscape_short {s : Char} (h : (s, c) ∈ shortEscapes) (cs : List Char) :
    readEscape ('\\' :: s :: cs) = some (c, cs) := by
  simp only [shortEscapes, List.mem_cons, Prod.mk.injEq, List.not_mem_nil, or_false] at h
  rcases h with ⟨rfl, rfl⟩ | ⟨rfl, rfl⟩ | ⟨rfl, rfl⟩ | ⟨rfl, rfl⟩ | ⟨rfl, rfl⟩ | ⟨rfl, rfl⟩ |
    ⟨rfl, rfl⟩ <;> rfl

/-- The code point ends at the closing brace, which is no digit. -/
theorem readEscape_codePoint (c : Char) (cs : List Char) :
    readEscape (codePointEscape c ++ cs) = some (c, cs) := by
  -- The brace is no digit, so the digits are read back up to it.
  have hdigits : ∀ x ∈ Nat.toDigits 16 c.toNat, decide (x ≠ '\x7d') = true := by
    intro x hx
    obtain ⟨d, hd, rfl⟩ := exists_of_mem_toDigits hx
    have hall : ∀ d < 16, decide (Nat.digitChar d ≠ '\x7d') = true := by decide
    exact hall d hd
  have hwhole : codePointEscape c ++ cs =
      '\\' :: 'u' :: '\x7b' :: (Nat.toDigits 16 c.toNat ++ '\x7d' :: cs) := by
    simp [codePointEscape]
  rw [hwhole, readEscape, List.takeWhile_append_of_pos hdigits,
    List.dropWhile_append_of_pos hdigits, List.takeWhile_cons_of_neg (by decide),
    List.dropWhile_cons_of_neg (by decide), List.append_nil,
    ofHex_toDigits, Char.ofNat_toNat, List.tail_cons]

/-- A character is read back from what it is written as, whatever follows. -/
theorem readEscape_escapeChar (escapes : Escapes) (c : Char) (cs : List Char) :
    readEscape (escapeChar escapes c ++ cs) = some (c, cs) := by
  rcases escapeChar_cases escapes c with ⟨hself, hc, -⟩ | ⟨s, hs, hshort⟩ | hcode
  · rw [hself]
    exact readEscape_of_ne hc cs
  · rw [hshort]
    exact readEscape_short hs cs
  · rw [hcode]
    exact readEscape_codePoint c cs

theorem escapeChar_ne_nil (escapes : Escapes) (c : Char) : escapeChar escapes c ≠ [] := by
  rcases escapeChar_cases escapes c with ⟨hself, -⟩ | ⟨s, -, hshort⟩ | hcode
  · rw [hself]
    exact List.cons_ne_nil _ _
  · rw [hshort]
    exact List.cons_ne_nil _ _
  · rw [hcode]
    exact List.cons_ne_nil _ _

/-- Where a written character stands, no other does, even with other characters escaped. -/
theorem escapeChar_append_inj {escapes escapes' : Escapes} {d : Char} {ds : List Char}
    (h : escapeChar escapes c ++ cs = escapeChar escapes' d ++ ds) : c = d ∧ cs = ds := by
  have hread := readEscape_escapeChar escapes c cs
  rw [h, readEscape_escapeChar, Option.some.injEq, Prod.mk.injEq] at hread
  exact ⟨hread.1.symm, hread.2.symm⟩

/-! ## Whole texts -/

/-- Escaped texts are different for different texts. -/
theorem flatMap_escapeChar_injective (escapes : Escapes) :
    Function.Injective (List.flatMap (escapeChar escapes)) := by
  intro cs ds h
  -- Each escaped character can be read back in front of any rest.
  induction cs generalizing ds with
  | nil =>
    cases ds with
    | nil => rfl
    | cons d ds =>
      rw [List.flatMap_cons, List.flatMap_nil] at h
      exact absurd (List.append_eq_nil_iff.1 h.symm).1 (escapeChar_ne_nil escapes d)
  | cons c cs ih =>
    cases ds with
    | nil =>
      rw [List.flatMap_cons, List.flatMap_nil] at h
      exact absurd (List.append_eq_nil_iff.1 h).1 (escapeChar_ne_nil escapes c)
    | cons d ds =>
      rw [List.flatMap_cons, List.flatMap_cons] at h
      obtain ⟨rfl, hrest⟩ := escapeChar_append_inj h
      rw [ih hrest]

/-- An escaped text determines the text. -/
theorem escape_injective : Function.Injective escape := by
  intro cs ds h
  cases cs with
  | nil =>
    cases ds with
    | nil => rfl
    | cons d ds => exact absurd (List.append_eq_nil_iff.1 h.symm).1 (escapeChar_ne_nil _ d)
  | cons c cs =>
    cases ds with
    | nil => exact absurd (List.append_eq_nil_iff.1 h).1 (escapeChar_ne_nil _ c)
    | cons d ds =>
      obtain ⟨rfl, hrest⟩ := escapeChar_append_inj h
      rw [flatMap_escapeChar_injective _ hrest]

/-! ## Lines and blanks -/

/-- What a code point is written with. -/
theorem mem_codePointEscape {x : Char} (h : x ∈ codePointEscape c) :
    x ∈ ['\\', 'u', '\x7b', '\x7d'] ∨ ∃ d < 16, x = Nat.digitChar d := by
  simp only [codePointEscape, List.mem_cons, List.mem_append, List.not_mem_nil, or_false] at h
  rcases h with rfl | rfl | rfl | h | rfl
  · simp
  · simp
  · simp
  · exact .inr (exists_of_mem_toDigits h)
  · simp

theorem lineFeed_not_mem_escapeChar (escapes : Escapes) (c : Char) :
    '\n' ∉ escapeChar escapes c := by
  intro h
  rcases escapeChar_cases escapes c with ⟨hself, -, hc⟩ | ⟨s, hs, hshort⟩ | hcode
  · rw [hself, List.mem_singleton] at h
    exact hc h.symm
  · have hall : ∀ entry ∈ shortEscapes, '\n' ∉ ['\\', entry.1] := by decide +kernel
    rw [hshort] at h
    exact hall _ hs h
  · rw [hcode] at h
    rcases mem_codePointEscape h with h | ⟨d, hd, h⟩
    · exact absurd h (by decide)
    · have hall : ∀ d < 16, '\n' ≠ Nat.digitChar d := by decide
      exact hall d hd h

theorem lineFeed_not_mem_flatMap_escapeChar (escapes : Escapes) (cs : List Char) :
    '\n' ∉ cs.flatMap (escapeChar escapes) := by
  intro h
  obtain ⟨c, -, hc⟩ := List.mem_flatMap.1 h
  exact lineFeed_not_mem_escapeChar escapes c hc

/-- An escaped text stays on its line. -/
theorem lineFeed_not_mem_escape (cs : List Char) : '\n' ∉ escape cs := by
  cases cs with
  | nil => exact List.not_mem_nil
  | cons c cs =>
    intro h
    rcases List.mem_append.1 h with h | h
    · exact lineFeed_not_mem_escapeChar _ c h
    · exact lineFeed_not_mem_flatMap_escapeChar _ cs h

theorem lineFeed_not_mem_quote (cs : List Char) : '\n' ∉ quote cs := by
  intro h
  rcases List.mem_cons.1 h with h | h
  · exact absurd h (by decide)
  · rcases List.mem_append.1 h with h | h
    · exact lineFeed_not_mem_flatMap_escapeChar _ cs h
    · exact absurd h (by decide)

/-- Only a space is written so that a space comes last. -/
theorem eq_space_of_getLast? {escapes : Escapes}
    (h : (escapeChar escapes c).getLast? = some ' ') : c = ' ' := by
  rcases escapeChar_cases escapes c with ⟨hself, -⟩ | ⟨s, hs, hshort⟩ | hcode
  · rw [hself] at h
    exact Option.some.inj h
  · have hall : ∀ entry ∈ shortEscapes, entry.1 ≠ ' ' := by decide +kernel
    rw [hshort] at h
    exact absurd (Option.some.inj h) (hall _ hs)
  · have hbrace : codePointEscape c =
        ('\\' :: 'u' :: '\x7b' :: Nat.toDigits 16 c.toNat) ++ ['\x7d'] := rfl
    rw [hcode, hbrace, List.getLast?_concat] at h
    exact absurd h (by decide)

/-- An escaped text ends in a space only if the text does. -/
theorem getLast?_of_getLast?_escape (h : (escape cs).getLast? = some ' ') :
    cs.getLast? = some ' ' := by
  -- Whichever characters are escaped, the last one is written last.
  have hconcat : ∀ ds d, ∃ front escapes, escape (ds ++ [d]) = front ++ escapeChar escapes d := by
    intro ds d
    cases ds with
    | nil => exact ⟨[], ⟨true, true⟩, by simp [escape]⟩
    | cons e ds =>
      refine ⟨escapeChar ⟨true, true⟩ e ++ ds.flatMap (escapeChar ⟨true, false⟩),
        ⟨true, false⟩, ?_⟩
      simp [escape]
  rcases List.eq_nil_or_concat cs with rfl | ⟨ds, d, rfl⟩
  · cases h
  · rw [List.concat_eq_append] at h ⊢
    obtain ⟨front, escapes, hescape⟩ := hconcat ds d
    have hsome : (escapeChar escapes d).getLast?.isSome = true :=
      List.getLast?_isSome.2 (escapeChar_ne_nil escapes d)
    rw [hescape, List.getLast?_append, Option.or_of_isSome hsome] at h
    rw [List.getLast?_concat, eq_space_of_getLast? h]

end Lexis.Text

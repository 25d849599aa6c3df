/-
  Lexis.Proofs.Toml.Written

  Whatever a plain document may say can be written.

  A character that may not stand for itself has a letter or the digits of its code point, an
  integer has its decimal digits behind its sign, and so every list of entries whose keys are bare
  has its lines.
-/

import Lexis.Proofs.Toml.Grammar
import Mathlib.Data.List.Basic

namespace Lexis.Toml

open Lexis.Text

variable {entries : List (String × Value)} {sections : List (String × List (String × Value))}

/-- A boolean, an integer or a string. -/
inductive Value.IsLeaf : Value → Prop where
  | boolean (b : Bool) : Value.IsLeaf (.boolean b)
  | integer {n : Int} (h : InInt64 n) : Value.IsLeaf (.integer n)
  | string (s : String) : Value.IsLeaf (.string s)

/-- Every character can be written: as it is, or by its code. -/
theorem exists_charText (c : Char) : ∃ t, CharText t c := by
  by_cases hplain : isUnescaped c = true
  · exact ⟨_, .plain hplain⟩
  · by_cases hquote : c = '"'
    · exact ⟨['\\', '"'], .letter (by simp [escapeLetters, hquote])⟩
    · by_cases hescape : c = '\\'
      · exact ⟨['\\', '\\'], .letter (by simp [escapeLetters, hescape])⟩
      · -- What is left are controls, which two digits are enough for.
        have hlt : c.toNat < 0x100 := by
          simp only [isUnescaped, Bool.and_eq_true, Bool.or_eq_true, bne_iff_ne,
            decide_eq_true_eq] at hplain
          by_contra hle
          exact hplain ⟨⟨⟨.inr (by omega), by omega⟩, hquote⟩, hescape⟩
        exact ⟨_, .short ⟨rfl, fun _ hd => hexValue?_of_mem_fourDigits hlt hd,
          ofHex_fourDigits hlt⟩⟩

theorem exists_charsText (cs : List Char) : ∃ body, CharsText body cs := by
  induction cs with
  | nil => exact ⟨[], .nil⟩
  | cons c cs ih =>
    obtain ⟨t, ht⟩ := exists_charText c
    obtain ⟨body, hbody⟩ := ih
    exact ⟨t ++ body, .cons ht hbody⟩

theorem grouped_of_forall {digit : Char → Bool} {ds : List Char} (hne : ds ≠ [])
    (h : ∀ d ∈ ds, digit d = true) : Grouped digit ds ds := by
  induction ds with
  | nil => exact absurd rfl hne
  | cons d ds ih =>
    obtain ⟨hd, hds⟩ := List.forall_mem_cons.1 h
    cases ds with
    | nil => exact .one hd
    | cons e ds => exact .next hd (ih (List.cons_ne_nil _ _) hds)

theorem decimalText_toDigits (n : Nat) : DecimalText (Nat.toDigits 10 n) n := by
  have hdigits : Grouped isDigit (Nat.toDigits 10 n) (Nat.toDigits 10 n) :=
    grouped_of_forall Nat.toDigits_ne_nil fun _ hd => isDigit_of_mem_toDigits hd
  have hzero : (Nat.toDigits 10 n).head? = some '0' → Nat.toDigits 10 n = ['0'] := by
    intro hhead
    by_cases hn : n = 0
    · rw [hn]
      rfl
    · exact absurd hhead (head?_toDigits hn)
  have htext := DecimalText.digits hdigits hzero
  rwa [Nat.ofDigitChars_toDigits (by decide) (by decide)] at htext

theorem exists_integerText (n : Int) : ∃ cs, IntegerText cs n := by
  cases n with
  | ofNat n => exact ⟨_, .plain (decimalText_toDigits n)⟩
  | negSucc n => exact ⟨_, .minus (decimalText_toDigits (n + 1))⟩

theorem exists_leafText {v : Value} (h : v.IsLeaf) : ∃ cs, LeafText cs v := by
  cases h with
  | boolean b => exact ⟨_, .boolean b⟩
  | @integer n h =>
    obtain ⟨cs, hcs⟩ := exists_integerText n
    exact ⟨cs, .integer hcs h⟩
  | string s =>
    obtain ⟨body, hbody⟩ := exists_charsText s.toList
    exact ⟨_, .string hbody⟩

/-- Entries that have lines: the keys are bare and the values leaves. -/
def AreLines (entries : List (String × Value)) : Prop :=
  ∀ e ∈ entries, IsBareKey e.1 ∧ e.2.IsLeaf

theorem exists_linesText (h : AreLines entries) : ∃ ls, LinesText ls entries := by
  induction entries with
  | nil => exact ⟨[], .nil⟩
  | cons e entries ih =>
    obtain ⟨⟨hkey, hv⟩, hentries⟩ := List.forall_mem_cons.1 h
    obtain ⟨cs, hcs⟩ := exists_leafText hv
    obtain ⟨ls, hls⟩ := ih hentries
    exact ⟨_, .cons hkey hcs hls⟩

/-- Every list of sections can be written, by induction on it. -/
theorem exists_sectionsText (h : ∀ s ∈ sections, IsBareKey s.1 ∧ AreLines s.2) :
    ∃ ss, SectionsText ss sections := by
  induction sections with
  | nil => exact ⟨[], .nil⟩
  | cons s sections ih =>
    obtain ⟨⟨hname, hentries⟩, hsections⟩ := List.forall_mem_cons.1 h
    obtain ⟨ls, hls⟩ := exists_linesText hentries
    obtain ⟨ss, hss⟩ := ih hsections
    exact ⟨_, @SectionsText.cons _ 1 _ _ _ _ hname hls hss⟩

/-- Entries and sections can be written as a document. -/
theorem exists_documentText (h : AreLines entries)
    (hsections : ∀ s ∈ sections, IsBareKey s.1 ∧ AreLines s.2) :
    ∃ text, DocumentText text entries sections := by
  obtain ⟨ls, hls⟩ := exists_linesText h
  obtain ⟨ss, hss⟩ := exists_sectionsText hsections
  exact ⟨ls ++ ss, ls, ss, hls, hss, rfl⟩

end Lexis.Toml

/-
  Lexis.Proofs.Scan.Grammar

  The languages of trivia and tokens, as regular expressions and a table.

  Nothing here mentions scanning: what a text has to look like to be trivia or a token of a kind is
  said by languages alone. The lemmas after them spell membership out in terms of lists.
-/

import Lexis.Text.Classes
import Lexis.Token.Keyword
import Mathlib.Computability.Language

namespace Lexis.Grammar

open Computability
open Lexis.Text

/-- The texts of one character with a property. -/
def oneOf (p : Char → Prop) : Language Char :=
  {w | ∃ c, p c ∧ w = [c]}

/-- One text and no other. -/
def fixed (s : String) : Language Char :=
  {w | w = s.toList}

/-- One character of space. -/
def blank : Language Char :=
  oneOf fun c => c = ' ' ∨ c = '\t' ∨ c = '\r' ∨ c = '\n'

/-- A comment reaches to the end of its line and leaves the line feed out. -/
def comment : Language Char :=
  fixed "//" * (oneOf (· ≠ '\n'))∗

/-- What separates tokens. -/
def trivia : Language Char :=
  (blank + comment)∗

/-- One decimal digit. -/
def digit : Language Char :=
  oneOf fun c => '0' ≤ c ∧ c ≤ '9'

/-- One character that a word may start with. -/
def letter : Language Char :=
  oneOf fun c => ('A' ≤ c ∧ c ≤ 'Z') ∨ ('a' ≤ c ∧ c ≤ 'z') ∨ c = '_'

/-- A word: a letter, and letters and digits behind it. -/
def word : Language Char :=
  letter * (letter + digit)∗

/-- A number: digits, and perhaps a point with digits behind it. -/
def number : Language Char :=
  digit * digit∗ * (1 + fixed "." * (digit * digit∗))

/-- A string: any text without a quote, between two of them. -/
def string : Language Char :=
  fixed "\"" * (oneOf (· ≠ '"'))∗ * fixed "\""

/-- The tokens that have only one text. -/
def symbols : List (String × Kind) :=
  [("(", .leftParen), (")", .rightParen), ("\x7b", .leftBrace), ("\x7d", .rightBrace),
   (";", .semicolon), (",", .comma), (".", .dot), ("-", .minus), ("+", .plus), ("/", .slash),
   ("*", .star), ("!", .bang), ("=", .equal), ("<", .lessThan), (">", .greaterThan),
   ("!=", .bangEqual), ("==", .equalEqual), ("<=", .lessThanEqual), (">=", .greaterThanEqual)]

/-- The texts of the tokens of a kind. -/
inductive IsToken : Kind → List Char → Prop where
  | symbol {s : String} {kind : Kind} (h : (s, kind) ∈ symbols) : IsToken kind s.toList
  | word {w : List Char} (h : w ∈ word) :
      IsToken ((Keyword.ofWord? (String.ofList w)).getD .identifier) w
  | number {w : List Char} (h : w ∈ number) : IsToken .number w
  | string {w : List Char} (h : w ∈ string) : IsToken .string w

/-- The texts of all tokens. -/
def tokenText : Language Char :=
  {w | ∃ kind, IsToken kind w}

/-! ## Membership in terms of lists -/

variable {w : List Char}

@[simp] theorem mem_oneOf {p : Char → Prop} : w ∈ oneOf p ↔ ∃ c, p c ∧ w = [c] := Iff.rfl

@[simp] theorem mem_fixed {s : String} : w ∈ fixed s ↔ w = s.toList := Iff.rfl

theorem cons_mem_kstar {l : Language Char} {v : List Char} (hv : v ∈ l) (hw : w ∈ l∗) :
    v ++ w ∈ l∗ := by
  rw [Language.mem_kstar] at hw ⊢
  obtain ⟨ws, rfl, hws⟩ := hw
  refine ⟨v :: ws, rfl, ?_⟩
  intro y hy
  rcases List.mem_cons.1 hy with rfl | hy
  · exact hv
  · exact hws y hy

/-- Repeating one character of a class gives the texts with all characters in it. -/
theorem mem_kstar_oneOf {p : Char → Prop} : w ∈ (oneOf p)∗ ↔ ∀ c ∈ w, p c := by
  constructor
  · intro hw
    obtain ⟨ws, rfl, hws⟩ := Language.mem_kstar.1 hw
    intro c hc
    obtain ⟨v, hv, hcv⟩ := List.mem_flatten.1 hc
    obtain ⟨d, hd, rfl⟩ := mem_oneOf.1 (hws v hv)
    rwa [List.mem_singleton.1 hcv]
  · intro hw
    induction w with
    | nil => exact Language.nil_mem_kstar _
    | cons c w ih =>
      have hc : [c] ∈ oneOf p := mem_oneOf.2 ⟨c, hw c List.mem_cons_self, rfl⟩
      exact cons_mem_kstar hc (ih fun d hd => hw d (List.mem_cons_of_mem c hd))

theorem oneOf_add (p q : Char → Prop) : oneOf p + oneOf q = oneOf fun c => p c ∨ q c := by
  apply Language.ext
  intro w
  rw [Language.mem_add, mem_oneOf, mem_oneOf, mem_oneOf]
  constructor
  · rintro (⟨c, hc, rfl⟩ | ⟨c, hc, rfl⟩)
    · exact ⟨c, .inl hc, rfl⟩
    · exact ⟨c, .inr hc, rfl⟩
  · rintro ⟨c, hc | hc, rfl⟩
    · exact .inl ⟨c, hc, rfl⟩
    · exact .inr ⟨c, hc, rfl⟩

theorem mem_blank : w ∈ blank ↔ ∃ c, isBlank c = true ∧ w = [c] := by
  simp [blank, isBlank, or_assoc]

/-- A comment, by its characters: two slashes and no line feed. -/
theorem mem_comment : w ∈ comment ↔ ∃ body, (∀ c ∈ body, c ≠ '\n') ∧ w = '/' :: '/' :: body := by
  rw [comment, Language.mem_mul]
  constructor
  · rintro ⟨a, ha, body, hbody, rfl⟩
    rw [mem_fixed] at ha
    subst ha
    exact ⟨body, mem_kstar_oneOf.1 hbody, rfl⟩
  · rintro ⟨body, hbody, rfl⟩
    exact ⟨_, mem_fixed.2 rfl, body, mem_kstar_oneOf.2 hbody, rfl⟩

theorem mem_digit : w ∈ digit ↔ ∃ c, isDigit c = true ∧ w = [c] := by
  simp [digit, isDigit]

theorem mem_letter : w ∈ letter ↔ ∃ c, isWordStart c = true ∧ w = [c] := by
  simp [letter, isWordStart, or_left_comm, or_assoc]

theorem mem_kstar_digit : w ∈ digit∗ ↔ ∀ c ∈ w, isDigit c = true := by
  rw [digit, mem_kstar_oneOf]
  simp [isDigit]

theorem mem_kstar_wordPart : w ∈ (letter + digit)∗ ↔ ∀ c ∈ w, isWordPart c = true := by
  rw [letter, digit, oneOf_add, mem_kstar_oneOf]
  simp [isWordPart, isWordStart, isDigit, or_left_comm, or_assoc]

theorem mem_digits :
    w ∈ digit * digit∗ ↔ ∃ c ds, w = c :: ds ∧ ∀ d ∈ c :: ds, isDigit d = true := by
  rw [Language.mem_mul]
  constructor
  · rintro ⟨a, ha, ds, hds, rfl⟩
    obtain ⟨c, hc, rfl⟩ := mem_digit.1 ha
    exact ⟨c, ds, rfl, List.forall_mem_cons.2 ⟨hc, mem_kstar_digit.1 hds⟩⟩
  · rintro ⟨c, ds, rfl, hds⟩
    obtain ⟨hc, hds⟩ := List.forall_mem_cons.1 hds
    exact ⟨[c], mem_digit.2 ⟨c, hc, rfl⟩, ds, mem_kstar_digit.2 hds, rfl⟩

/-- A word, by its characters: a letter, then letters and digits. -/
theorem mem_word :
    w ∈ word ↔ ∃ c cs, w = c :: cs ∧ isWordStart c = true ∧ ∀ d ∈ cs, isWordPart d = true := by
  rw [word, Language.mem_mul]
  constructor
  · rintro ⟨a, ha, cs, hcs, rfl⟩
    obtain ⟨c, hc, rfl⟩ := mem_letter.1 ha
    exact ⟨c, cs, rfl, hc, mem_kstar_wordPart.1 hcs⟩
  · rintro ⟨c, cs, rfl, hc, hcs⟩
    exact ⟨[c], mem_letter.2 ⟨c, hc, rfl⟩, cs, mem_kstar_wordPart.2 hcs, rfl⟩

/-- A number is digits, and behind them nothing or a point and digits again. -/
theorem mem_number :
    w ∈ number ↔ ∃ ds fs, w = ds ++ fs ∧ ds ∈ digit * digit∗ ∧
      (fs = [] ∨ ∃ es, fs = '.' :: es ∧ es ∈ digit * digit∗) := by
  rw [number, Language.mem_mul]
  constructor
  · rintro ⟨ds, hds, fs, hfs, rfl⟩
    refine ⟨ds, fs, rfl, hds, ?_⟩
    -- Behind the digits: nothing, or a point with digits.
    rcases (Language.mem_add _ _ _).1 hfs with hnil | hpoint
    · exact .inl ((Language.mem_one _).1 hnil)
    · obtain ⟨a, ha, es, hes, rfl⟩ := Language.mem_mul.1 hpoint
      rw [mem_fixed] at ha
      subst ha
      exact .inr ⟨es, rfl, hes⟩
  · rintro ⟨ds, fs, rfl, hds, hfs⟩
    refine ⟨ds, hds, fs, ?_, rfl⟩
    rw [Language.mem_add]
    rcases hfs with rfl | ⟨es, rfl, hes⟩
    · exact .inl Language.nil_mem_one
    · exact .inr (Language.mem_mul.2 ⟨_, mem_fixed.2 rfl, es, hes, rfl⟩)

/-- A string, by its characters: no quote between its two quotes. -/
theorem mem_string :
    w ∈ string ↔ ∃ body, w = '"' :: (body ++ ['"']) ∧ ∀ c ∈ body, c ≠ '"' := by
  rw [string, Language.mem_mul]
  constructor
  · rintro ⟨a, ha, b, hb, rfl⟩
    -- The product of three languages is cut at both quotes.
    obtain ⟨q, hq, body, hbody, rfl⟩ := Language.mem_mul.1 ha
    rw [mem_fixed] at hq hb
    subst hq hb
    exact ⟨body, rfl, mem_kstar_oneOf.1 hbody⟩
  · rintro ⟨body, rfl, hbody⟩
    have hopen : '"' :: body ∈ fixed "\"" * (oneOf (· ≠ '"'))∗ :=
      Language.mem_mul.2 ⟨_, mem_fixed.2 rfl, body, mem_kstar_oneOf.2 hbody, rfl⟩
    exact ⟨_, hopen, _, mem_fixed.2 rfl, rfl⟩

end Lexis.Grammar

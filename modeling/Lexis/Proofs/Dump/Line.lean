/-
  Lexis.Proofs.Dump.Line

  The line of a token can be read back.

  A line starts with a number and a name, which both end at a space. With a span it ends in two
  numbers, and from the right these end at characters that are no digits. What stands between is
  the escaped lexeme. The spaces that are cut off at the end of a line are nobody's: a span ends in
  a digit, and a scanned lexeme does not end in a space.
-/

import Lexis.Dump.Basic
import Lexis.Proofs.Scan.Kinds
import Lexis.Proofs.Text.Escaped

namespace Lexis

open Computability
open Lexis.Text Lexis.Grammar

/-- Kinds have different names, by cases on both. -/
theorem Kind.name_injective : Function.Injective Kind.name := by
  intro k k' h
  have hall : ∀ k ∈ Kind.all, Kind.ofName? k.name = some k := by decide +kernel
  have hk := hall k k.mem_all
  rw [h, hall k' k'.mem_all] at hk
  exact (Option.some.inj hk).symm

/-- A name is one word. -/
theorem Kind.ne_space_of_mem_name {k : Kind} {c : Char} (h : c ∈ k.name.toList) :
    c ≠ ' ' ∧ c ≠ '\n' := by
  have hall : ∀ k ∈ Kind.all, (k.name.toList.all fun c => c ≠ ' ' ∧ c ≠ '\n') = true := by
    decide +kernel
  exact of_decide_eq_true (List.all_eq_true.1 (hall k k.mem_all) c h)

namespace Dump

variable {a b r s : List Char} {t t' : Token} {spans : Bool}

/-! ## Runs -/

/-- Two texts that start with runs of some characters are cut alike where the runs stop. -/
theorem append_inj_of_takeWhile {α : Type} {p : α → Bool} {a b r s : List α}
    (ha : ∀ x ∈ a, p x = true) (hb : ∀ x ∈ b, p x = true) (hr : r.takeWhile p = [])
    (hs : s.takeWhile p = []) (h : a ++ r = b ++ s) : a = b ∧ r = s := by
  have hcut := congrArg (List.takeWhile p) h
  rw [List.takeWhile_append_of_pos ha, List.takeWhile_append_of_pos hb, hr, hs, List.append_nil,
    List.append_nil] at hcut
  subst hcut
  exact ⟨rfl, List.append_cancel_left h⟩

/-- A number ends where no digit follows. -/
theorem digits_append_inj {m n : Nat} (hr : r.takeWhile isDigit = [])
    (hs : s.takeWhile isDigit = []) (h : digits m ++ r = digits n ++ s) : m = n ∧ r = s := by
  obtain ⟨hdigits, hrest⟩ := append_inj_of_takeWhile (fun _ => isDigit_of_mem_toDigits)
    (fun _ => isDigit_of_mem_toDigits) hr hs h
  exact ⟨toDigits_injective hdigits, hrest⟩

/-- Read from the right, a number starts where no digit stands before it. -/
theorem append_digits_inj {m n : Nat} (ha : a.reverse.takeWhile isDigit = [])
    (hb : b.reverse.takeWhile isDigit = []) (h : a ++ digits m = b ++ digits n) :
    a = b ∧ m = n := by
  have hreverse := congrArg List.reverse h
  rw [List.reverse_append, List.reverse_append] at hreverse
  obtain ⟨hdigits, hrest⟩ := append_inj_of_takeWhile
    (fun _ hx => isDigit_of_mem_toDigits (List.mem_reverse.1 hx))
    (fun _ hx => isDigit_of_mem_toDigits (List.mem_reverse.1 hx)) ha hb hreverse
  exact ⟨List.reverse_inj.1 hrest, toDigits_injective (List.reverse_inj.1 hdigits)⟩

/-! ## The front of a line -/

/-- What stands before the lexeme of a token. -/
def lineFront (t : Token) : List Char :=
  List.leftpad 4 ' ' (digits t.line) ++ ' ' :: List.rightpad 20 ' ' t.kind.name.toList ++ [' ']

/-- The lexeme of a token, with its span if that is shown. -/
def lineEnd (spans : Bool) (t : Token) : List Char :=
  escape t.lexeme.toList ++ if spans then spanMark t.span else []

theorem toList_tokenLine (spans : Bool) (t : Token) :
    (tokenLine spans t).toList = trimEnd (lineFront t ++ lineEnd spans t) := by
  simp [tokenLine, lineFront, lineEnd]

/-- The first digit of a number stops a run of spaces. -/
theorem takeWhile_digits_append (n : Nat) (r : List Char) :
    (digits n ++ r).takeWhile (· = ' ') = [] := by
  cases hdigits : digits n with
  | nil => exact absurd hdigits Nat.toDigits_ne_nil
  | cons d ds =>
    -- A number begins with a digit.
    have hd : isDigit d = true := by
      apply isDigit_of_mem_toDigits (n := n)
      rw [← digits, hdigits]
      exact List.mem_cons_self
    have hspace : d ≠ ' ' := by
      rintro rfl
      exact absurd hd (by decide)
    rw [List.cons_append]
    exact List.takeWhile_cons_of_neg (by simpa using hspace)

/-- A padded number in front of a blank can be read back, whatever follows. -/
theorem leftpad_digits_append_inj {m n width : Nat}
    (h : List.leftpad width ' ' (digits m) ++ ' ' :: r =
      List.leftpad width ' ' (digits n) ++ ' ' :: s) : m = n ∧ r = s := by
  rw [List.leftpad, List.leftpad, List.append_assoc, List.append_assoc] at h
  have hspaces : ∀ k, ∀ x ∈ List.replicate k ' ', decide (x = ' ') = true := by
    intro k x hx
    exact decide_eq_true (List.eq_of_mem_replicate hx)
  have hdigits := (append_inj_of_takeWhile (hspaces _) (hspaces _) (takeWhile_digits_append m _)
    (takeWhile_digits_append n _) h).2
  obtain ⟨rfl, hrest⟩ := digits_append_inj (List.takeWhile_cons_of_neg (by decide))
    (List.takeWhile_cons_of_neg (by decide)) hdigits
  exact ⟨rfl, (List.cons.inj hrest).2⟩

/-- Some spaces, and one more. -/
theorem takeWhile_replicate_append (k : Nat) (r : List Char) :
    (List.replicate k ' ' ++ ' ' :: r).takeWhile (· ≠ ' ') = [] := by
  cases k with
  | zero => exact List.takeWhile_cons_of_neg (by decide)
  | succ k =>
    rw [List.replicate_succ, List.cons_append]
    exact List.takeWhile_cons_of_neg (by decide)

/-- A padded name in front of a blank can be read back, whatever follows. -/
theorem rightpad_name_append_inj {k k' : Kind} {width : Nat}
    (h : List.rightpad width ' ' k.name.toList ++ ' ' :: r =
      List.rightpad width ' ' k'.name.toList ++ ' ' :: s) : k = k' ∧ r = s := by
  have hname : ∀ (k : Kind), ∀ x ∈ k.name.toList, decide (x ≠ ' ') = true := by
    intro k x hx
    exact decide_eq_true (Kind.ne_space_of_mem_name hx).1
  rw [List.rightpad, List.rightpad, List.append_assoc, List.append_assoc] at h
  obtain ⟨heq, hrest⟩ := append_inj_of_takeWhile (hname k) (hname k')
    (takeWhile_replicate_append _ r) (takeWhile_replicate_append _ s) h
  -- Equal names are followed by equally many spaces.
  rw [heq] at hrest
  refine ⟨Kind.name_injective (String.toList_injective heq), ?_⟩
  exact (List.cons.inj (List.append_cancel_left hrest)).2

/-- A line starts with a line number and a kind. -/
theorem lineFront_append_inj (h : lineFront t ++ r = lineFront t' ++ s) :
    t.line = t'.line ∧ t.kind = t'.kind ∧ r = s := by
  simp only [lineFront, List.append_assoc, List.cons_append, List.nil_append] at h
  obtain ⟨hline, hname⟩ := leftpad_digits_append_inj h
  obtain ⟨hkind, hrest⟩ := rightpad_name_append_inj hname
  exact ⟨hline, hkind, hrest⟩

/-- It starts with a space or a digit. -/
theorem exists_lineFront_eq_cons (t : Token) :
    ∃ c cs, lineFront t = c :: cs ∧ (c = ' ' ∨ isDigit c = true) := by
  have hmem : ∀ c ∈ List.leftpad 4 ' ' (digits t.line), c = ' ' ∨ isDigit c = true := by
    intro c hc
    rcases List.mem_append.1 hc with hc | hc
    · exact .inl (List.eq_of_mem_replicate hc)
    · exact .inr (isDigit_of_mem_toDigits hc)
  cases hpad : List.leftpad 4 ' ' (digits t.line) with
  | nil =>
    rw [List.leftpad, List.append_eq_nil_iff] at hpad
    exact absurd hpad.2 Nat.toDigits_ne_nil
  | cons c cs =>
    rw [hpad] at hmem
    refine ⟨c, cs ++ ' ' :: List.rightpad 20 ' ' t.kind.name.toList ++ [' '], ?_,
      hmem c List.mem_cons_self⟩
    rw [lineFront, hpad, List.cons_append, List.cons_append]

/-! ## The end of a line -/

/-- A span starts at the last space, and its numbers are two points apart. -/
theorem append_spanMark_inj {span span' : Span}
    (h : a ++ spanMark span = b ++ spanMark span') : a = b ∧ span = span' := by
  have hsplit : ∀ (a : List Char) (span : Span), a ++ spanMark span =
      a ++ [' ', '@'] ++ digits span.start ++ ['.', '.'] ++ digits span.stop := by
    intro a span
    simp [spanMark]
  rw [hsplit, hsplit] at h
  -- From the right: the digits of the end, those of the start, then the mark.
  obtain ⟨hfront, hstop⟩ := append_digits_inj (by simp [List.takeWhile_cons_of_neg, isDigit])
    (by simp [List.takeWhile_cons_of_neg, isDigit]) h
  obtain ⟨hmark, hstart⟩ := append_digits_inj (by simp [List.takeWhile_cons_of_neg, isDigit])
    (by simp [List.takeWhile_cons_of_neg, isDigit]) (List.append_cancel_right hfront)
  obtain ⟨start, stop⟩ := span
  obtain ⟨start', stop'⟩ := span'
  cases hstart
  cases hstop
  exact ⟨List.append_cancel_right hmark, rfl⟩

/-- A line that shows a span ends in a digit. -/
theorem getLast?_lineEnd_true (t : Token) : (lineEnd true t).getLast? ≠ some ' ' := by
  have hsplit : lineEnd true t = (escape t.lexeme.toList ++ [' ', '@'] ++ digits t.span.start ++
      ['.', '.']) ++ digits t.span.stop := by
    simp [lineEnd, spanMark]
  intro h
  have hne : digits t.span.stop ≠ [] := Nat.toDigits_ne_nil
  rw [hsplit, List.getLast?_append_of_ne_nil _ hne] at h
  have hdigit := isDigit_of_mem_toDigits (List.mem_of_getLast? h)
  exact absurd hdigit (by decide)

/-! ## Trimming -/

/-- A text is what is left of it when it is trimmed, and some spaces. -/
theorem exists_eq_trimEnd_append (cs : List Char) :
    ∃ n, cs = trimEnd cs ++ List.replicate n ' ' := by
  have hspaces : cs.reverse.takeWhile (· = ' ') =
      List.replicate (cs.reverse.takeWhile (· = ' ')).length ' ' := by
    refine List.eq_replicate_of_mem fun c hc => ?_
    have hspace := List.mem_takeWhile_imp (p := fun c : Char => decide (c = ' ')) hc
    exact of_decide_eq_true hspace
  refine ⟨(cs.reverse.takeWhile (· = ' ')).length, ?_⟩
  rw [← List.reverse_inj, List.reverse_append, List.reverse_replicate, ← hspaces, trimEnd,
    List.reverse_reverse, List.takeWhile_append_dropWhile]

/-- Texts that are trimmed to the same differ in the spaces at their ends. -/
theorem eq_append_of_trimEnd_eq (h : trimEnd a = trimEnd b) :
    ∃ n, a = b ++ List.replicate n ' ' ∨ b = a ++ List.replicate n ' ' := by
  obtain ⟨m, ha⟩ := exists_eq_trimEnd_append a
  obtain ⟨n, hb⟩ := exists_eq_trimEnd_append b
  rw [h] at ha
  -- Both lines are the same text with blanks behind it, so one has more of them.
  rcases Nat.le_total n m with hle | hle
  · refine ⟨m - n, .inl ?_⟩
    calc
      a = trimEnd b ++ List.replicate (n + (m - n)) ' ' := by rw [Nat.add_sub_cancel' hle, ← ha]
      _ = trimEnd b ++ List.replicate n ' ' ++ List.replicate (m - n) ' ' := by
        rw [List.replicate_add, List.append_assoc]
      _ = b ++ List.replicate (m - n) ' ' := by rw [← hb]
  · refine ⟨n - m, .inr ?_⟩
    calc
      b = trimEnd b ++ List.replicate (m + (n - m)) ' ' := by rw [Nat.add_sub_cancel' hle, ← hb]
      _ = trimEnd b ++ List.replicate m ' ' ++ List.replicate (n - m) ' ' := by
        rw [List.replicate_add, List.append_assoc]
      _ = a ++ List.replicate (n - m) ' ' := by rw [← ha]

/-- Spaces at the end of a text that does not end in a space are none. -/
theorem eq_of_eq_append_replicate {n : Nat} (ha : a.getLast? ≠ some ' ')
    (h : a = b ++ List.replicate n ' ') : a = b := by
  cases n with
  | zero => rwa [List.replicate_zero, List.append_nil] at h
  | succ n =>
    rw [h, List.replicate_succ', ← List.append_assoc, List.getLast?_concat] at ha
    exact absurd rfl ha

/-! ## Whole lines -/

/-- Lines that lose no space of what stands at their end determine all that they show. -/
theorem eq_of_tokenLine_eq (ht : (lineEnd spans t).getLast? ≠ some ' ')
    (ht' : (lineEnd spans t').getLast? ≠ some ' ') (h : tokenLine spans t = tokenLine spans t') :
    t.line = t'.line ∧ t.kind = t'.kind ∧ lineEnd spans t = lineEnd spans t' := by
  have htrim := congrArg String.toList h
  rw [toList_tokenLine, toList_tokenLine] at htrim
  obtain ⟨n, hn | hn⟩ := eq_append_of_trimEnd_eq htrim
  · rw [List.append_assoc] at hn
    obtain ⟨hline, hkind, hend⟩ := lineFront_append_inj hn
    exact ⟨hline, hkind, eq_of_eq_append_replicate ht hend⟩
  · rw [List.append_assoc] at hn
    obtain ⟨hline, hkind, hend⟩ := lineFront_append_inj hn
    exact ⟨hline.symm, hkind.symm, (eq_of_eq_append_replicate ht' hend).symm⟩

/-- A line with a span is that of one token. -/
theorem tokenLine_true_injective : Function.Injective (tokenLine true) := by
  intro t t' h
  obtain ⟨hline, hkind, hend⟩ :=
    eq_of_tokenLine_eq (getLast?_lineEnd_true t) (getLast?_lineEnd_true t') h
  obtain ⟨hlexeme, hspan⟩ := append_spanMark_inj hend
  obtain ⟨kind, lexeme, line, span⟩ := t
  obtain ⟨kind', lexeme', line', span'⟩ := t'
  cases hline
  cases hkind
  cases hspan
  cases String.toList_injective (escape_injective hlexeme)
  rfl

/-! ## Lines of scanned tokens -/

theorem space_not_mem_digits {ds : List Char} (h : ds ∈ digit * digit∗) : ' ' ∉ ds := by
  obtain ⟨c, cs, rfl, hall⟩ := mem_digits.1 h
  exact fun hspace => absurd (hall ' ' hspace) (by decide)

/-- No token of the grammar ends in a space. -/
theorem getLast?_of_isToken {kind : Kind} {w : List Char} (h : IsToken kind w) :
    w.getLast? ≠ some ' ' := by
  intro hlast
  have hspace := List.mem_of_getLast? hlast
  cases h with
  | symbol h =>
    have hall : ∀ entry ∈ symbols, (entry.1.toList.all fun c => c ≠ ' ') = true := by
      decide +kernel
    exact absurd rfl (of_decide_eq_true (List.all_eq_true.1 (hall _ h) ' ' hspace))
  | word h =>
    obtain ⟨c, cs, rfl, hc, hcs⟩ := mem_word.1 h
    rcases List.mem_cons.1 hspace with rfl | hspace
    · exact absurd hc (by decide)
    · exact absurd (hcs ' ' hspace) (by decide)
  | number h =>
    obtain ⟨ds, fs, rfl, hds, hfs⟩ := mem_number.1 h
    rcases List.mem_append.1 hspace with hspace | hspace
    · exact absurd hspace (space_not_mem_digits hds)
    · rcases hfs with rfl | ⟨es, rfl, hes⟩
      · cases hspace
      · rcases List.mem_cons.1 hspace with hpoint | hspace
        · exact absurd hpoint (by decide)
        · exact absurd hspace (space_not_mem_digits hes)
  | string h =>
    obtain ⟨body, rfl, -⟩ := mem_string.1 h
    rw [← List.cons_append, List.getLast?_concat] at hlast
    exact absurd hlast (by decide)

/-- What a source yields as a lexeme does not end in a space. -/
theorem getLast?_lexeme_of_mem_tokens {source : String} (h : t ∈ tokens source) :
    t.lexeme.toList.getLast? ≠ some ' ' := by
  rcases cases_of_mem_tokens h with ⟨-, hlexeme⟩ | ⟨-, e, hlexeme⟩ | htoken
  · rw [hlexeme]
    exact fun hlast => by cases hlast
  · rw [hlexeme]
    cases e <;> decide
  · exact getLast?_of_isToken htoken

/-- So without its span a line loses no spaces but those that stand before an empty lexeme. -/
theorem getLast?_lineEnd_false {source : String} (h : t ∈ tokens source) :
    (lineEnd false t).getLast? ≠ some ' ' := by
  rw [lineEnd, if_neg (by decide), List.append_nil]
  exact fun hlast => getLast?_lexeme_of_mem_tokens h (getLast?_of_getLast?_escape hlast)

/-- Without a span the line of a scanned token determines its kind, its lexeme and its line. -/
theorem eq_of_tokenLine_false_eq {source source' : String} (ht : t ∈ tokens source)
    (ht' : t' ∈ tokens source') (h : tokenLine false t = tokenLine false t') :
    t.kind = t'.kind ∧ t.lexeme = t'.lexeme ∧ t.line = t'.line := by
  obtain ⟨hline, hkind, hend⟩ :=
    eq_of_tokenLine_eq (getLast?_lineEnd_false ht) (getLast?_lineEnd_false ht') h
  have hescape : escape t.lexeme.toList = escape t'.lexeme.toList := List.append_cancel_right hend
  exact ⟨hkind, String.toList_injective (escape_injective hescape), hline⟩

/-! ## One line each -/

theorem mem_of_mem_trimEnd {cs : List Char} {c : Char} (h : c ∈ trimEnd cs) : c ∈ cs := by
  rw [trimEnd, List.mem_reverse] at h
  exact List.mem_reverse.1 (List.dropWhile_subset _ h)

theorem lineFeed_not_mem_digits (n : Nat) : '\n' ∉ digits n :=
  fun h => absurd (isDigit_of_mem_toDigits h) (by decide)

/-- Whatever a token has for its lexeme, its line is one line. -/
theorem lineFeed_not_mem_tokenLine (spans : Bool) (t : Token) :
    '\n' ∉ (tokenLine spans t).toList := by
  -- Neither numbers nor names nor quoted texts have a line feed, and trimming adds none.
  have hfront : '\n' ∉ lineFront t := by
    simp only [lineFront, List.leftpad, List.rightpad, List.mem_append, List.mem_cons,
      List.not_mem_nil, List.mem_replicate, or_false, not_or]
    exact ⟨⟨⟨by simp, lineFeed_not_mem_digits _⟩, by decide,
      fun h => (Kind.ne_space_of_mem_name h).2 rfl, by simp⟩, by decide⟩
  have hmark : '\n' ∉ spanMark t.span := by
    simp only [spanMark, List.mem_append, List.mem_cons, not_or]
    exact ⟨by decide, by decide, lineFeed_not_mem_digits _, by decide, by decide,
      lineFeed_not_mem_digits _⟩
  rw [toList_tokenLine]
  intro h
  rcases List.mem_append.1 (mem_of_mem_trimEnd h) with h | h
  · exact hfront h
  · rcases List.mem_append.1 h with h | h
    · exact lineFeed_not_mem_escape _ h
    · cases spans with
      | true => exact hmark h
      | false => cases h

end Dump

end Lexis

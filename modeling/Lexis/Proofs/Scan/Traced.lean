/-
  Lexis.Proofs.Scan.Traced

  The scanner with a record of what it reads.

  Each rule is written once more over traced computations, where the only thing that moves a cursor
  is `Traced.advance`; `result_scan` and `result_tokensLoop` say that nothing else is changed by
  it. What `yields_scan` adds is where the reads of a scan lead, and that there are some unless it
  is the end token that is scanned, so that drawing all tokens is a loop as well.
-/

import Lexis.Proofs.Cursor.Traced
import Lexis.Proofs.Scan.Draw

namespace Lexis.Traced

open Lexis.Text Lexis.Cursor

/-! ## Trivia -/

/-- On over blanks and comments. -/
def triviaLoop : Loop Cursor Cursor where
  round c := do
    let x ← look c.current
    if isBlank x then
      let q ← advance c
      pure (.again q.2)
    else if x = '/' then
      let y ← look (c.peek 1)
      if y = '/' then
        let d ← (untilLoop '\n').run c
        pure (.again d)
      else pure (.leave c)
    else pure (.leave c)
  start := id
  stop := id
  moved c := by
    refine Yields.look_bind fun x hx => Yields.ite (fun hblank => ?blank) fun _ =>
      Yields.ite (fun hslash => ?slash) fun _ => yields_leave c
    case blank => exact yields_again (isAtEnd_of_current hx (by rintro rfl; cases hblank))
    case slash =>
      refine Yields.look_bind fun y _ => Yields.ite (fun _ => ?_) fun _ => yields_leave c
      subst hslash
      intro round hround
      rw [result_bind, result_untilLoop] at hround
      obtain ⟨d, hd, hround⟩ := Fault.bind_eq_ok.1 hround
      cases hround
      -- The comment takes at least the slash that the cursor stands before.
      have hlt : d.left < c.left :=
        left_of_skipUntil hx (isAtEnd_of_current hx (by decide)) (by decide) hd
      have hd' : ((untilLoop '\n').run c).result = .ok d := (result_untilLoop _ _).trans hd
      have hmoves : c.Moves ((untilLoop '\n').run c).reads d := Loop.yields_run _ c d hd'
      rw [reads_bind hd']
      show c.Moves (_ ++ []) d ∧ _ ++ [] ≠ []
      rw [List.append_nil]
      refine ⟨hmoves, fun hnil => ?_⟩
      rw [hnil] at hmoves
      cases hmoves
      exact Nat.lt_irrefl _ hlt

@[simp] theorem result_triviaLoop (c : Cursor) : (triviaLoop.run c).result = c.skipTrivia := by
  refine Loop.result_run _ (f := skipTrivia) (fun c => ?_) c
  rw [skipTrivia_eq]
  simp only [triviaLoop, result_bind, result_look]
  -- Both sides ask the same questions of the cursor; a fault ends both.
  cases c.current with
  | error fault => rfl
  | ok x =>
    rw [Fault.ok_bind, Fault.ok_bind, result_ite]
    by_cases hblank : isBlank x
    · rw [if_pos hblank, if_pos hblank, result_bind, result_advance]
      cases c.advance <;> rfl
    · rw [if_neg hblank, if_neg hblank, result_ite]
      by_cases hslash : x = '/'
      · rw [if_pos hslash, if_pos hslash, result_bind, result_look]
        cases c.peek 1 with
        | error fault => rfl
        | ok y =>
          rw [Fault.ok_bind, Fault.ok_bind, result_ite]
          by_cases hy : y = '/'
          · rw [if_pos hy, if_pos hy, result_bind, result_untilLoop]
            cases c.skipUntil '\n' <;> rfl
          · rw [if_neg hy, if_neg hy]
            rfl
      · rw [if_neg hslash, if_neg hslash]
        rfl

/-! ## The rules -/

theorem isDigit_endMark : isDigit endMark = false := by
  decide

theorem isWordPart_endMark : isWordPart endMark = false := by
  decide

/-- A token was scanned by reading from `c` on. -/
def Scanned (c : Cursor) (reads : List Read) (q : Token × Scanner) : Prop :=
  c.Moves reads q.2.cursor

/-- Reads the fraction of a number, if one comes next. -/
def skipFraction (c : Cursor) : Traced Cursor := do
  let x ← look c.current
  if x = '.' then
    let y ← look (c.peek 1)
    if isDigit y then
      let q ← advance c
      (whileLoop isDigit isDigit_endMark).run q.2
    else pure c
  else pure c

/-- Reads a number, with what it reads on the way. -/
def number (s : Scanner) : Traced (Token × Scanner) := do
  let whole ← (whileLoop isDigit isDigit_endMark).run s.cursor
  let cursor ← skipFraction whole
  look (Scanner.emit { s with cursor } .number)

/-- Reads a word, with what it reads on the way. -/
def word (s : Scanner) : Traced (Token × Scanner) := do
  let cursor ← (whileLoop isWordPart isWordPart_endMark).run s.cursor
  let text ← look (cursor.sliceFrom s.start)
  look (Scanner.emit { s with cursor } ((Keyword.ofWord? text).getD .identifier))

/-- Reads a string, with what it reads on the way. -/
def string (s : Scanner) : Traced (Token × Scanner) := do
  let cursor ← (untilLoop '"').run s.cursor
  if cursor.isAtEnd then look (Scanner.reject { s with cursor } .unterminatedString)
  else
    let q ← advance cursor
    look (Scanner.emit { s with cursor := q.2 } .string)

/-- Reads an operator that may have an equals sign behind it. -/
def operator (s : Scanner) (alone withEqual : Kind) : Traced (Token × Scanner) := do
  let q ← matchChar s.cursor '='
  look (Scanner.emit { s with cursor := q.2 } (if q.1 then withEqual else alone))

/-- Reads the token that starts with a character, which has been read. -/
def rule (s : Scanner) (x : Char) : Traced (Token × Scanner) :=
  if isDigit x then number s
  else if isWordStart x then word s
  else if x = '"' then string s
  else
    match Symbol.operator? x with
    | some (alone, withEqual) => operator s alone withEqual
    | none =>
      match Symbol.single? x with
      | some kind => look (s.emit kind)
      | none => look (s.reject .unexpectedCharacter)

/-- Reads the token that starts where a cursor stands, or the end. -/
def scanAt (cursor : Cursor) : Traced (Token × Scanner) :=
  if cursor.isAtEnd then look (Scanner.emit ⟨cursor, cursor.position, cursor.line⟩ .eof)
  else do
    let q ← advance cursor
    rule ⟨q.2, cursor.position, cursor.line⟩ q.1

/-- Reads the next token, behind what is skipped before it. -/
def scan (s : Scanner) : Traced (Token × Scanner) := do
  let cursor ← triviaLoop.run s.cursor
  scanAt cursor

/-! ## The results are those of the scanner -/

@[simp] theorem result_skipFraction (c : Cursor) :
    (skipFraction c).result = Scanner.skipFraction c := by
  simp [skipFraction, Scanner.skipFraction]
  rfl

@[simp] theorem result_number (s : Scanner) : (number s).result = s.number := by
  simp [number, Scanner.number]

@[simp] theorem result_word (s : Scanner) : (word s).result = s.word := by
  simp [word, Scanner.word]

@[simp] theorem result_string (s : Scanner) : (string s).result = s.string := by
  simp [string, Scanner.string]

@[simp] theorem result_operator (s : Scanner) (alone withEqual : Kind) :
    (operator s alone withEqual).result = s.operator alone withEqual := by
  simp [operator, Scanner.operator]

@[simp] theorem result_rule (s : Scanner) (x : Char) : (rule s x).result = s.rule x := by
  unfold rule Scanner.rule
  rw [result_ite, result_ite, result_ite, result_number, result_word, result_string]
  cases Symbol.operator? x with
  | some pair => rw [result_operator]
  | none => cases Symbol.single? x <;> rfl

@[simp] theorem result_scanAt (cursor : Cursor) :
    (scanAt cursor).result = Scanner.scanAt cursor := by
  simp [scanAt, Scanner.scanAt]

@[simp] theorem result_scan (s : Scanner) : (scan s).result = s.scan := by
  simp [scan, Scanner.scan]

/-! ## The reads lead from the start of a scan to its end -/

/-- Making a token reads nothing. -/
theorem scanned_emit (s : Scanner) (kind : Kind) :
    (look (s.emit kind)).Yields (Scanned s.cursor) := by
  rintro ⟨t, s'⟩ h
  unfold Scanned
  rw [(Scanner.cursor_of_emit h).2]
  exact Moves.refl _

theorem scanned_reject (s : Scanner) (e : LexicalError) :
    (look (s.reject e)).Yields (Scanned s.cursor) := by
  rintro _ ⟨⟩
  exact Moves.refl _

/-- What is scanned from where reads lead is scanned from where they come from. -/
theorem Yields.scanned {c d : Cursor} {reads : List Read} {x : Traced (Token × Scanner)}
    (h : c.Moves reads d) (hx : x.Yields (Scanned d)) :
    x.Yields fun more q => Scanned c (reads ++ more) q :=
  fun q hq => h.trans (hx q hq)

theorem yields_skipFraction (c : Cursor) :
    (skipFraction c).Yields fun reads d => c.Moves reads d := by
  refine Yields.look_bind fun x _ => Yields.ite (fun _ => ?_) fun _ => yields_pure (Moves.refl c)
  refine Yields.look_bind fun y _ => Yields.ite (fun _ => ?_) fun _ => yields_pure (Moves.refl c)
  refine (yields_advance c).bind fun reads q hmoves => ?_
  intro d hd
  exact hmoves.1.trans (Loop.yields_run _ q.2 d hd)

theorem scanned_number (s : Scanner) : (number s).Yields (Scanned s.cursor) := by
  refine (Loop.yields_run _ s.cursor).bind fun _ whole hwhole => ?_
  refine (yields_skipFraction whole).bind fun _ cursor hcursor => ?_
  simp only [← List.append_assoc]
  exact Yields.scanned (hwhole.trans hcursor) (scanned_emit { s with cursor } .number)

theorem scanned_word (s : Scanner) : (word s).Yields (Scanned s.cursor) := by
  refine (Loop.yields_run _ s.cursor).bind fun _ cursor hcursor => Yields.look_bind fun text _ => ?_
  exact Yields.scanned hcursor (scanned_emit { s with cursor } _)

theorem scanned_string (s : Scanner) : (string s).Yields (Scanned s.cursor) := by
  refine (Loop.yields_run _ s.cursor).bind fun _ cursor hcursor =>
    Yields.ite (fun _ => ?_) fun _ => ?_
  · exact Yields.scanned hcursor (scanned_reject { s with cursor } _)
  · refine (yields_advance cursor).bind fun _ q hq => ?_
    simp only [← List.append_assoc]
    exact Yields.scanned (hcursor.trans hq.1) (scanned_emit { s with cursor := q.2 } .string)

theorem scanned_operator (s : Scanner) (alone withEqual : Kind) :
    (operator s alone withEqual).Yields (Scanned s.cursor) := by
  refine (yields_matchChar s.cursor '=').bind fun _ q hq => ?_
  exact Yields.scanned hq (scanned_emit { s with cursor := q.2 } _)

/-- Each rule goes on from where its first character was read. -/
theorem scanned_rule (s : Scanner) (x : Char) : (rule s x).Yields (Scanned s.cursor) := by
  refine Yields.ite (fun _ => scanned_number s) fun _ =>
    Yields.ite (fun _ => scanned_word s) fun _ =>
    Yields.ite (fun _ => scanned_string s) fun _ => ?_
  cases Symbol.operator? x with
  | some pair => exact scanned_operator s pair.1 pair.2
  | none =>
    cases Symbol.single? x with
    | some kind => exact scanned_emit s kind
    | none => exact scanned_reject s _

/-- A scan reads on from its cursor, and if it is not at the end it reads something. -/
theorem yields_scan (s : Scanner) :
    (scan s).Yields fun reads q =>
      Scanned s.cursor reads q ∧ (q.1.isEof = false → reads ≠ []) := by
  refine (Loop.yields_run triviaLoop s.cursor).bind fun skipped cursor hskipped => ?_
  refine Yields.ite (fun _ => ?_) fun hend => ?_
  · -- At the end the token is the end token.
    rintro ⟨t, s'⟩ h
    have hkind : t.isEof = true := by simp [Token.isEof, (Scanner.cursor_of_emit h).1]
    refine ⟨Yields.scanned hskipped (scanned_emit _ .eof) _ h, fun heof => ?_⟩
    rw [hkind] at heof
    cases heof
  -- The first character is read here, so something is read in any case.
  · refine (yields_advance cursor).bind fun reads q hq => ?_
    intro t ht
    rw [← List.append_assoc]
    refine ⟨Yields.scanned (hskipped.trans hq.1) (scanned_rule _ q.1) t ht, fun _ => ?_⟩
    simp [hq.2 (by simpa using hend)]

/-! ## All tokens -/

/-- On up to the end token, with all tokens so far. -/
def tokensLoop : Loop (Scanner × List Token) (List Token × Scanner) where
  round s := do
    let q ← scan s.1
    if q.1.isEof then pure (.leave (s.2 ++ [q.1], q.2))
    else pure (.again (q.2, s.2 ++ [q.1]))
  start s := s.1.cursor
  stop q := q.2.cursor
  moved s := by
    refine (yields_scan s.1).bind fun reads q hq => ?_
    rw [← List.append_nil reads] at hq
    exact Yields.ite (fun _ => yields_pure hq.1) fun heof =>
      yields_pure ⟨hq.1, hq.2 (by simpa using heof)⟩

/-- The loop over tokens answers what the scanner's loop answers. -/
theorem result_tokensLoop (s : Scanner) (ts : List Token) :
    (tokensLoop.run (s, ts)).result = s.drain.map fun q => (ts ++ q.1, q.2) := by
  refine Loop.result_run _
    (f := fun s : Scanner × List Token => s.1.drain.map fun q => (s.2 ++ q.1, q.2)) ?_ (s, ts)
  rintro ⟨s, ts⟩
  rw [Scanner.drain_eq]
  simp only [tokensLoop, result_bind, result_scan, result_ite]
  cases s.scan with
  | error fault => rfl
  | ok q =>
    rw [Fault.ok_bind, Fault.ok_bind]
    by_cases heof : q.1.isEof
    · rw [if_pos heof, if_pos heof]
      rfl
    · rw [if_neg heof, if_neg heof]
      show _ = q.2.drain.map fun q' => ((ts ++ [q.1]) ++ q'.1, q'.2)
      cases q.2.drain with
      | error fault => rfl
      | ok q' => rw [Fault.map_ok, Fault.map_ok, Fault.map_ok, List.append_cons]

/-- All tokens of a source text, the end token last. -/
def tokenize (source : String) : Traced (List Token) := do
  let q ← tokensLoop.run (Scanner.ofSource source, [])
  pure q.1

@[simp] theorem result_tokenize (source : String) :
    (tokenize source).result = Lexis.tokenize source := by
  unfold tokenize Lexis.tokenize
  rw [result_bind, result_tokensLoop]
  cases (Scanner.ofSource source).drain <;> rfl

end Lexis.Traced

/-
  Lexis.Scan.Scanner

  Tokens drawn one after another from a source text.

  A scanner is a cursor and the place where the token being read starts. `scan` skips trivia, marks
  that place, and lets the first character choose the rule for the rest of the token; at the end of
  the source it yields the end token, however often it is asked. A scan never gives up on bad text,
  which becomes an error token; the one thing that can stop it is a limit of the cursor, and that
  is an error of the scan itself. Every other operation draws from `scan`, with the end token taken
  as the end of the sequence of tokens.
-/

import Lexis.Scan.Trivia
import Lexis.Token.Basic
import Lexis.Token.Keyword
import Lexis.Token.Symbol

namespace Lexis

/-- A cursor, and where the token being read starts. -/
structure Scanner where
  cursor : Cursor
  /-- Offset of the first character of the token. -/
  start : Nat
  /-- Line of that character. -/
  startLine : Nat
  deriving DecidableEq, Inhabited

namespace Scanner

open Lexis.Text

/-- The scanner before the first token of a source. -/
def ofSource (source : String) : Scanner :=
  ⟨.ofSource source, 0, 1⟩

/-- The source text. -/
def source (s : Scanner) : String :=
  s.cursor.source

/-- Byte offset that has been reached. -/
def position (s : Scanner) : Nat :=
  s.cursor.position

/-- Line that has been reached. -/
def line (s : Scanner) : Nat :=
  s.cursor.line

/-! ## Making tokens -/

/-- The bytes from the start of the token up to the cursor. -/
def span (s : Scanner) : Span :=
  ⟨s.start, s.position⟩

/-- Yields the token of a kind whose text ends at the cursor. -/
def emit (s : Scanner) (kind : Kind) : Except Fault (Token × Scanner) :=
  (s.cursor.sliceFrom s.start).map fun text => (⟨kind, text, s.startLine, s.span⟩, s)

/-- Yields the token that reports an error over the text up to the cursor. -/
def reject (s : Scanner) (e : LexicalError) : Except Fault (Token × Scanner) :=
  .ok (.ofError e s.startLine s.span, s)

/-! ## The rules, each for a token whose first character has been read -/

/-- Reads a fraction: a point, but only if a digit follows it, and all digits after the point. -/
def skipFraction (c : Cursor) : Except Fault Cursor := do
  if (← c.current) = '.' then
    if isDigit (← c.peek 1) then
      let (_, d) ← c.advance
      d.skipWhile isDigit (by decide)
    else return c
  else return c

/-- The number that starts with a digit, which has been read. -/
def number (s : Scanner) : Except Fault (Token × Scanner) := do
  let whole ← s.cursor.skipWhile isDigit (by decide)
  let cursor ← skipFraction whole
  emit { s with cursor } .number

/-- A whole word is read before it is looked up. -/
def word (s : Scanner) : Except Fault (Token × Scanner) := do
  let cursor ← s.cursor.skipWhile isWordPart (by decide)
  let text ← cursor.sliceFrom s.start
  emit { s with cursor } ((Keyword.ofWord? text).getD .identifier)

/-- A string ends at the next quote; without one it takes all the rest. -/
def string (s : Scanner) : Except Fault (Token × Scanner) := do
  let cursor ← s.cursor.skipUntil '"'
  if cursor.isAtEnd then reject { s with cursor } .unterminatedString
  else
    let (_, cursor) ← cursor.advance
    emit { s with cursor } .string

/-- The operator that has been read, or the one with an equals sign behind it if that comes next. -/
def operator (s : Scanner) (alone withEqual : Kind) : Except Fault (Token × Scanner) := do
  let (matched, cursor) ← s.cursor.matchChar '='
  emit { s with cursor } (if matched then withEqual else alone)

/-- The rule that the first character `x` chooses. -/
def rule (s : Scanner) (x : Char) : Except Fault (Token × Scanner) :=
  if isDigit x then s.number
  else if isWordStart x then s.word
  else if x = '"' then s.string
  else
    match Symbol.operator? x with
    | some (alone, withEqual) => s.operator alone withEqual
    | none =>
      match Symbol.single? x with
      | some kind => s.emit kind
      | none => s.reject .unexpectedCharacter

/-- The token at a cursor that stands on no trivia. -/
def scanAt (cursor : Cursor) : Except Fault (Token × Scanner) := do
  let s : Scanner := ⟨cursor, cursor.position, cursor.line⟩
  if cursor.isAtEnd then s.emit .eof
  else
    let (x, cursor) ← cursor.advance
    rule { s with cursor } x

/-- The next token, which is the end token once the source is used up. -/
def scan (s : Scanner) : Except Fault (Token × Scanner) := do
  scanAt (← s.cursor.skipTrivia)

/-! ## A scan of any token but the end token uses up characters -/

theorem cursor_of_emit {s s' : Scanner} {kind : Kind} {t : Token}
    (h : s.emit kind = .ok (t, s')) : t.kind = kind ∧ s' = s := by
  obtain ⟨text, -, h⟩ := Fault.map_eq_ok.1 h
  cases h
  exact ⟨rfl, rfl⟩

theorem reaches_of_skipFraction {c d : Cursor} (h : skipFraction c = .ok d) : c.Reaches d := by
  obtain ⟨x, -, h⟩ := Fault.bind_eq_ok.1 h
  split at h
  · obtain ⟨y, -, h⟩ := Fault.bind_eq_ok.1 h
    split at h
    · obtain ⟨⟨z, e⟩, he, h⟩ := Fault.bind_eq_ok.1 h
      exact (Cursor.reaches_of_advance he).trans (Cursor.reaches_of_skipWhile h)
    · cases h
      exact Cursor.Reaches.refl c
  · cases h
    exact Cursor.Reaches.refl c

theorem reaches_of_matchChar {c d : Cursor} {x : Char} {b : Bool}
    (h : c.matchChar x = .ok (b, d)) : c.Reaches d := by
  unfold Cursor.matchChar at h
  split at h
  · cases h
    exact Cursor.Reaches.refl c
  · obtain ⟨y, -, h⟩ := Fault.bind_eq_ok.1 h
    split at h
    · obtain ⟨⟨z, e⟩, he, h⟩ := Fault.map_eq_ok.1 h
      cases h
      exact Cursor.reaches_of_advance he
    · cases h
      exact Cursor.Reaches.refl c

/-- Each rule only moves forward. -/
theorem reaches_of_rule {s s' : Scanner} {x : Char} {t : Token} (h : s.rule x = .ok (t, s')) :
    s.cursor.Reaches s'.cursor := by
  unfold rule at h
  split at h
  · obtain ⟨c, hc, h⟩ := Fault.bind_eq_ok.1 h
    obtain ⟨d, hd, h⟩ := Fault.bind_eq_ok.1 h
    rw [(cursor_of_emit h).2]
    exact (Cursor.reaches_of_skipWhile hc).trans (reaches_of_skipFraction hd)
  · split at h
    · obtain ⟨c, hc, h⟩ := Fault.bind_eq_ok.1 h
      obtain ⟨text, -, h⟩ := Fault.bind_eq_ok.1 h
      rw [(cursor_of_emit h).2]
      exact Cursor.reaches_of_skipWhile hc
    · split at h
      · obtain ⟨c, hc, h⟩ := Fault.bind_eq_ok.1 h
        split at h
        · cases h
          exact Cursor.reaches_of_skipUntil hc
        · obtain ⟨⟨y, d⟩, hd, h⟩ := Fault.bind_eq_ok.1 h
          rw [(cursor_of_emit h).2]
          exact (Cursor.reaches_of_skipUntil hc).trans (Cursor.reaches_of_advance hd)
      · split at h
        · obtain ⟨⟨b, c⟩, hc, h⟩ := Fault.bind_eq_ok.1 h
          rw [(cursor_of_emit h).2]
          exact reaches_of_matchChar hc
        · split at h
          · rw [(cursor_of_emit h).2]
            exact Cursor.Reaches.refl _
          · cases h
            exact Cursor.Reaches.refl _

/-- A token that is not the end leaves less of the text: the measure of the loop over tokens. -/
theorem left_of_scan {s s' : Scanner} {t : Token} (h : s.scan = .ok (t, s'))
    (ht : t.isEof = false) : s'.cursor.left < s.cursor.left := by
  obtain ⟨c, hc, h⟩ := Fault.bind_eq_ok.1 h
  unfold scanAt at h
  split at h
  · simp [Token.isEof, (cursor_of_emit h).1] at ht
  next hend =>
    obtain ⟨⟨x, d⟩, hd, h⟩ := Fault.bind_eq_ok.1 h
    have hle : s'.cursor.left ≤ d.left := (reaches_of_rule h).left_le
    have hlt : d.left < c.left := Cursor.left_of_advance (by simpa using hend) hd
    have hskip : c.left ≤ s.cursor.left := (Cursor.reaches_of_skipTrivia hc).left_le
    omega

/-! ## Sequences of tokens -/

/-- The next token, or nothing at the end. -/
def next (s : Scanner) : Except Fault (Option Token × Scanner) :=
  s.scan.map fun (t, s') => (if t.isEof then none else some t, s')

theorem left_of_next {s s' : Scanner} {t : Token} (h : s.next = .ok (some t, s')) :
    s'.cursor.left < s.cursor.left := by
  obtain ⟨⟨u, s''⟩, hu, h⟩ := Fault.map_eq_ok.1 h
  simp only [Prod.mk.injEq] at h
  obtain ⟨hsome, rfl⟩ := h
  split at hsome
  · cases hsome
  next hu' => exact left_of_scan hu (by simpa using hu')

/-- Passes over `n` tokens and yields the one after them; stops at the end. -/
def nth : Nat → Scanner → Except Fault (Option Token × Scanner)
  | 0, s => s.next
  | n + 1, s =>
    match s.next with
    | .error fault => .error fault
    | .ok (none, s') => .ok (none, s')
    | .ok (some _, s') => nth n s'

/-- The next tokens, at most `n`; nothing is scanned after the last of `n`. -/
def take : Nat → Scanner → Except Fault (List Token × Scanner)
  | 0, s => .ok ([], s)
  | n + 1, s =>
    match s.next with
    | .error fault => .error fault
    | .ok (none, s') => .ok ([], s')
    | .ok (some t, s') => (take n s').map fun (ts, s'') => (t :: ts, s'')

/-- All tokens that are left, without the end token. -/
def collect (s : Scanner) : Except Fault (List Token × Scanner) :=
  match h : s.next with
  | .error fault => .error fault
  | .ok (none, s') => .ok ([], s')
  | .ok (some t, s') =>
    have : s'.cursor.left < s.cursor.left := left_of_next h
    (collect s').map fun (ts, s'') => (t :: ts, s'')
termination_by s.cursor.left

/-- The next token of a kind; the tokens before it, or all if there is none, are passed over. -/
def find (kind : Kind) (s : Scanner) : Except Fault (Option Token × Scanner) :=
  match h : s.next with
  | .error fault => .error fault
  | .ok (none, s') => .ok (none, s')
  | .ok (some t, s') =>
    have : s'.cursor.left < s.cursor.left := left_of_next h
    if t.kind = kind then .ok (some t, s') else find kind s'
termination_by s.cursor.left

/-- All tokens that are left, the end token last. -/
def drain (s : Scanner) : Except Fault (List Token × Scanner) :=
  match h : s.scan with
  | .error fault => .error fault
  | .ok (t, s') =>
    if ht : t.isEof then .ok ([t], s')
    else
      have : s'.cursor.left < s.cursor.left := left_of_scan h (by simpa using ht)
      (drain s').map fun (ts, s'') => (t :: ts, s'')
termination_by s.cursor.left

end Scanner

/-- All tokens of a source text, the end token last. -/
def tokenize (source : String) : Except Fault (List Token) :=
  (Scanner.ofSource source).drain.map (·.1)

end Lexis

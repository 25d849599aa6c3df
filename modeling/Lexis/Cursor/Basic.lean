/-
  Lexis.Cursor.Basic

  A cursor moves over a source text one character at a time.

  It keeps the byte offset it has reached and the line it is on. Offsets are limited to 64 bits and
  lines to 32; a step that would pass a limit is a fault, as is a slice with an end that is no
  place of the source or with its ends out of order. At the end of the source the cursor reads as
  NUL and does not move, so NUL alone does not tell the end from a NUL in the source.
-/

import Lexis.Text.Bytes
import Lexis.Text.Measure

namespace Lexis

/-- Why a step of a cursor or scanner cannot be taken. -/
inductive Fault where
  /-- The line number would pass its limit. -/
  | lineOverflow
  /-- An offset would pass its limit. -/
  | offsetOverflow
  /-- An end of a slice lies inside a character or past the source, or before its start. -/
  | invalidSlice
  deriving DecidableEq

namespace Fault

variable {α β : Type}

@[simp] theorem ok_bind (a : α) (f : α → Except Fault β) :
    (Except.ok a : Except Fault α) >>= f = f a := rfl

@[simp] theorem error_bind (fault : Fault) (f : α → Except Fault β) :
    (Except.error fault : Except Fault α) >>= f = .error fault := rfl

@[simp] theorem map_ok (f : α → β) (a : α) :
    (Except.ok a : Except Fault α).map f = .ok (f a) := rfl

@[simp] theorem map_error (f : α → β) (fault : Fault) :
    (Except.error fault : Except Fault α).map f = .error fault := rfl

/-- A result that is mapped first and used then is used mapped. -/
theorem map_bind {γ : Type} (x : Except Fault α) (f : α → β) (g : β → Except Fault γ) :
    x.map f >>= g = x >>= fun a => g (f a) := by
  cases x <;> rfl

/-- A chain of two steps succeeds only through a first step that does. -/
theorem bind_eq_ok {x : Except Fault α} {f : α → Except Fault β} {b : β} :
    x >>= f = .ok b ↔ ∃ a, x = .ok a ∧ f a = .ok b := by
  cases x with
  | error fault => simp
  | ok a => simp

theorem map_eq_ok {x : Except Fault α} {f : α → β} {b : β} :
    x.map f = .ok b ↔ ∃ a, x = .ok a ∧ f a = b := by
  cases x with
  | error fault => simp
  | ok a => simp

end Fault

/-- A place in a source text. -/
structure Cursor where
  source : String
  /-- Number of bytes before the cursor. -/
  position : Nat
  /-- Line of the next character, from 1. -/
  line : Nat
  deriving DecidableEq, Inhabited

namespace Cursor

/-- The largest line number, of 32 bits. -/
def maxLine : Nat := 0xFFFFFFFF

/-- The largest offset, of 64 bits. -/
def maxOffset : Nat := 0xFFFFFFFFFFFFFFFF

/-- What is read past the end of the source. -/
def endMark : Char := '\x00'

/-- The cursor before the first character. -/
def ofSource (source : String) : Cursor :=
  ⟨source, 0, 1⟩

/-! ## Looking -/

/-- Whether every character has been read. -/
def isAtEnd (c : Cursor) : Bool :=
  c.source.utf8ByteSize ≤ c.position

/-- The place of the source at an offset. -/
def place (c : Cursor) (offset : Nat) : Except Fault c.source.Pos :=
  if h : (⟨offset⟩ : String.Pos.Raw).IsValid c.source then .ok (c.source.pos ⟨offset⟩ h)
  else .error .invalidSlice

/-- The text that has not been read. -/
def remaining (c : Cursor) : Except Fault String :=
  (c.place c.position).map fun p => (c.source.sliceFrom p).copy

/-- The character `n` places into the text that has not been read. -/
def nth? (c : Cursor) (n : Nat) : Except Fault (Option Char) :=
  (c.place c.position).map (Text.nth? · n)

/-- The character `n` places ahead.

    A run of ASCII bytes is indexed as it stands; elsewhere characters are counted. -/
def peek (c : Cursor) (n : Nat) : Except Fault Char :=
  if maxOffset < c.position + n then .error .offsetOverflow
  else
    match Text.asciiAt? c.source c.position n with
    | some x => .ok x
    | none => (c.nth? n).map (·.getD endMark)

/-- The next character. -/
def current (c : Cursor) : Except Fault Char :=
  c.peek 0

/-- The text from byte offset `start` up to the cursor. -/
def sliceFrom (c : Cursor) (start : Nat) : Except Fault String := do
  let p ← c.place start
  let q ← c.place c.position
  if start ≤ c.position then .ok (c.source.extract p q) else .error .invalidSlice

/-! ## Moving -/

/-- The cursor after the character `x`. -/
def pass (c : Cursor) (x : Char) : Except Fault Cursor :=
  if maxOffset < c.position + x.utf8Size then .error .offsetOverflow
  else if x = '\n' then
    if c.line < maxLine then .ok ⟨c.source, c.position + x.utf8Size, c.line + 1⟩
    else .error .lineOverflow
  else .ok ⟨c.source, c.position + x.utf8Size, c.line⟩

/-- Reads the next character. -/
def advance (c : Cursor) : Except Fault (Char × Cursor) := do
  match ← c.nth? 0 with
  | none => .ok (endMark, c)
  | some x => (c.pass x).map fun c' => (x, c')

/-- Reads the next character if it is `x`, and tells whether it was. -/
def matchChar (c : Cursor) (x : Char) : Except Fault (Bool × Cursor) := do
  if c.isAtEnd then return (false, c)
  else if (← c.current) = x then c.advance.map fun (_, c') => (true, c')
  else return (false, c)

end Cursor

end Lexis

/-
  Lexis.Cursor.Session

  A cursor under a sequence of steps, with one saved copy of it to go back to.

  A step that faults answers with the fault and leaves the session as it was.
-/

import Lexis.Cursor.Basic

namespace Lexis.Cursor

/-- What can be asked of a cursor. -/
inductive Step where
  | current
  | peek (n : Nat)
  | advance
  | matchChar (x : Char)
  | isAtEnd
  | sliceFrom (start : Nat)
  | remaining
  | source
  /-- Keeps a copy of the cursor in place of the last one kept. -/
  | save
  /-- Goes back to the copy kept last. -/
  | restore
  deriving DecidableEq

/-- What a step answers. -/
inductive Answer where
  | char (x : Char)
  | flag (b : Bool)
  | text (s : String)
  | done
  deriving DecidableEq

/-- A cursor and the copy of it that was kept last. -/
structure Session where
  cursor : Cursor
  saved : Cursor
  deriving DecidableEq

namespace Session

/-- A session at the start of a source, which is also what it goes back to before any save. -/
def ofSource (source : String) : Session :=
  ⟨.ofSource source, .ofSource source⟩

/-- The answer to a step and the session after it, unless the step faults. -/
def attempt (s : Session) : Step → Except Fault (Answer × Session)
  | .current => s.cursor.current.map fun x => (.char x, s)
  | .peek n => (s.cursor.peek n).map fun x => (.char x, s)
  | .advance => s.cursor.advance.map fun (x, cursor) => (.char x, { s with cursor })
  | .matchChar x => (s.cursor.matchChar x).map fun (b, cursor) => (.flag b, { s with cursor })
  | .isAtEnd => .ok (.flag s.cursor.isAtEnd, s)
  | .sliceFrom start => (s.cursor.sliceFrom start).map fun t => (.text t, s)
  | .remaining => s.cursor.remaining.map fun t => (.text t, s)
  | .source => .ok (.text s.cursor.source, s)
  | .save => .ok (.done, { s with saved := s.cursor })
  | .restore => .ok (.done, { s with cursor := s.saved })

/-- Takes a step. -/
def step (s : Session) (step : Step) : Except Fault Answer × Session :=
  match s.attempt step with
  | .ok (answer, s') => (.ok answer, s')
  | .error fault => (.error fault, s)

/-- Takes steps in order, with the session after each. -/
def run (s : Session) : List Step → List (Except Fault Answer × Session)
  | [] => []
  | x :: xs =>
    let outcome := s.step x
    outcome :: run outcome.2 xs

end Session

end Lexis.Cursor

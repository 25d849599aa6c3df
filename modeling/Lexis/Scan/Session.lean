/-
  Lexis.Scan.Session

  A scanner under a sequence of steps, with one saved copy of it to go back to.
-/

import Lexis.Scan.Scanner

namespace Lexis.Scanner

/-- What can be asked of a scanner. -/
inductive Step where
  /-- The next token, be it the end token. -/
  | scan
  /-- The next token, or nothing at the end. -/
  | next
  | nth (n : Nat)
  | take (n : Nat)
  | collect
  /-- Number of tokens that are left. -/
  | count
  /-- The last token that is left. -/
  | last
  | find (kind : Kind)
  | source
  /-- Keeps a copy of the scanner in place of the last one kept. -/
  | save
  /-- Goes back to the copy kept last. -/
  | restore
  deriving DecidableEq

/-- What a step answers. -/
inductive Answer where
  | token (t : Token)
  | token? (t : Option Token)
  | tokens (ts : List Token)
  | number (n : Nat)
  | text (s : String)
  | done
  deriving DecidableEq

/-- A scanner and the copy of it that was kept last. -/
structure Session where
  scanner : Scanner
  saved : Scanner
  deriving DecidableEq

namespace Session

/-- A session at the start of a source, which is also what it goes back to before any save. -/
def ofSource (source : String) : Session :=
  ⟨.ofSource source, .ofSource source⟩

/-- The session after a draw from its scanner, with the draw as the answer. -/
def drawn {α : Type} (s : Session) (answer : α → Answer) (draw : Except Fault (α × Scanner)) :
    Except Fault (Answer × Session) :=
  draw.map fun (a, scanner) => (answer a, { s with scanner })

/-- Takes a step. -/
def step (s : Session) : Step → Except Fault (Answer × Session)
  | .scan => s.drawn .token s.scanner.scan
  | .next => s.drawn .token? s.scanner.next
  | .nth n => s.drawn .token? (s.scanner.nth n)
  | .take n => s.drawn .tokens (s.scanner.take n)
  | .collect => s.drawn .tokens s.scanner.collect
  | .count => s.drawn (fun ts => .number ts.length) s.scanner.collect
  | .last => s.drawn (fun ts => .token? ts.getLast?) s.scanner.collect
  | .find kind => s.drawn .token? (s.scanner.find kind)
  | .source => .ok (.text s.scanner.source, s)
  | .save => .ok (.done, { s with saved := s.scanner })
  | .restore => .ok (.done, { s with scanner := s.saved })

/-- Takes steps in order, with the session after each. -/
def run (s : Session) : List Step → Except Fault (List (Answer × Session))
  | [] => .ok []
  | x :: xs =>
    match s.step x with
    | .error fault => .error fault
    | .ok outcome => (run outcome.2 xs).map (outcome :: ·)

end Session

end Lexis.Scanner

/-
  Lexis.Dump.Format

  The formats in which tokens are dumped, and how one is chosen.
-/

import Lexis.Failure

namespace Lexis

/-- How a dump is written. -/
inductive Format where
  /-- One line for each token. -/
  | text
  /-- One JSON array for all files. -/
  | json
  deriving DecidableEq

namespace Format

/-- The format of a name, in any case. No letter outside ASCII has one of these for its lower
    case. -/
def ofName? (name : String) : Option Format :=
  let word := name.toList.map Char.toLower
  if word = ['t', 'e', 'x', 't'] ∨ word = ['t', 'x', 't'] then some .text
  else if word = ['j', 's', 'o', 'n'] then some .json
  else none

/-- The format that is asked for, or else the configured one. -/
def resolve (asked : Option String) (configured : String) : Except Failure Format :=
  match asked with
  | some name => (ofName? name).elim (.error (.unknownFormat name)) .ok
  | none => (ofName? configured).elim (.error (.configuredFormat configured)) .ok

end Format

end Lexis

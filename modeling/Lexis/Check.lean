/-
  Lexis.Check

  What a check finds in its files.

  One tally goes from file to file. Within a file the tokens are counted as they come; the limit on
  errors applies to what is listed of each file, while all errors are counted.
-/

import Lexis.Token.Basic

namespace Lexis.Check

/-- An error to be listed: where it is and what it says. -/
structure Finding where
  path : String
  line : Nat
  message : String
  deriving DecidableEq

/-- A finding as a check prints it. -/
def Finding.text (f : Finding) : String :=
  f.path ++ ":" ++ toString f.line ++ ": " ++ f.message

/-- The outcome for all files. -/
structure Report where
  files : Nat
  /-- Number of tokens, end tokens not counted. -/
  tokens : Nat
  /-- Number of errors, listed or not. -/
  errors : Nat
  findings : List Finding
  deriving DecidableEq

/-- A report in the making. -/
structure Tally where
  files : Nat
  tokens : Nat
  errors : Nat
  findings : Array Finding

namespace Tally

/-- The tally before the first file. -/
def empty : Tally :=
  ⟨0, 0, 0, #[]⟩

/-- What a tally comes to. -/
def report (tally : Tally) : Report :=
  ⟨tally.files, tally.tokens, tally.errors, tally.findings.toList⟩

end Tally

/-- A tally within a file, whose errors are added to it at the end of the file. -/
structure Progress where
  tally : Tally
  /-- Errors of the file that are listed. -/
  listed : Nat
  /-- Errors of the file. -/
  errors : Nat

namespace Progress

/-- Before the first token of a file. -/
def start (tally : Tally) : Progress :=
  ⟨tally, 0, 0⟩

/-- Counts a token of the file. -/
def countToken (p : Progress) : Progress :=
  { p with tally.tokens := p.tally.tokens + 1 }

/-- Counts an error, and lists it unless the file has as many findings as the limit allows. -/
def countError (maxErrors : Option Nat) (p : Progress) (finding : Finding) : Progress :=
  let counted := { p with errors := p.errors + 1 }
  if maxErrors.all (p.listed < ·) then
    { counted with listed := p.listed + 1, tally.findings := p.tally.findings.push finding }
  else counted

/-- Counts a token of the file at a path. -/
def count (maxErrors : Option Nat) (path : String) (p : Progress) (t : Token) : Progress :=
  match t.error? with
  | none => p.countToken
  | some e => p.countToken.countError maxErrors ⟨path, t.line, e.message⟩

/-- Behind the last token of a file. -/
def finish (p : Progress) : Tally :=
  { p.tally with files := p.tally.files + 1, errors := p.tally.errors + p.errors }

end Progress

end Lexis.Check

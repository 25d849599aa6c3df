/-
  Lexis.Run.Log

  The events that a run logs.

  An event is what a run says about one of its steps. When that was, and how long it took, is not
  part of it.
-/

namespace Lexis

/-- Something that a run logs; the time stamp before it is left out. -/
inductive Event where
  | runningCommand (name : String)
  | loadedSource (path : String) (bytes : Nat)
  | lexicalError (message : String) (line start stop : Nat)
  /-- Tokens are counted with the end token. -/
  | scannedFile (path : String) (tokens : Nat)
  | checkedFile (path : String) (errors : Nat)
  /-- The time that the check took, which the log gives last, is left out. -/
  | checkFinished (files tokens errors : Nat)
  deriving DecidableEq

namespace Event

/-- Whether an event is logged only when a run is verbose. -/
def isDetail : Event → Bool
  | checkFinished .. => false
  | _ => true

/-- Level of an event. -/
def level (e : Event) : String :=
  if e.isDetail then "DEBUG" else "INFO"

/-- What an event says. -/
def message : Event → String
  | runningCommand name => "running command command=\"" ++ name ++ "\""
  | loadedSource path bytes => "loaded source path=" ++ path ++ " bytes=" ++ toString bytes
  | lexicalError message line start stop =>
    "lexical error: " ++ message ++ " line=" ++ toString line ++ " start=" ++ toString start ++
      " end=" ++ toString stop
  | scannedFile path tokens => "scanned file path=" ++ path ++ " tokens=" ++ toString tokens
  | checkedFile path errors => "checked file path=" ++ path ++ " errors=" ++ toString errors
  | checkFinished files tokens errors =>
    "check finished files=" ++ toString files ++ " tokens=" ++ toString tokens ++ " errors=" ++
      toString errors

/-- An event as it stands in the log. -/
def text (e : Event) : String :=
  e.level ++ " " ++ e.message

end Event

end Lexis

/-
  Lexis.CommandLine.Request

  What a command line asks for, and why one may be answered without running a command.
-/

namespace Lexis.CommandLine

/-- A command with its own options. -/
inductive Command where
  | tokens (inputs : List String) (format : Option String) (spans : Bool)
  | check (inputs : List String) (maxErrors : Option Nat)
  deriving DecidableEq

/-- The files that a command is given. -/
def Command.inputs : Command → List String
  | tokens inputs .. => inputs
  | check inputs _ => inputs

/-- A command with the options that any command takes. -/
structure Request where
  verbose : Bool
  noColor : Bool
  config : Option String
  command : Command
  deriving DecidableEq

/-- Where on a command line an option stands: before the command, or after its name. -/
inductive Level where
  | root
  | tokens
  | check
  deriving DecidableEq

/-- The program at a level, as the program names itself. -/
def Level.programName : Level → String
  | root => "quillt"
  | tokens => "quillt-tokens"
  | check => "quillt-check"

/-- Why no command is run. -/
inductive Refusal where
  /-- The command line breaks the rules of usage. -/
  | usage
  /-- It asks for the version of the program at a level. -/
  | version (level : Level)
  /-- It asks how the program is used. -/
  | help
  deriving DecidableEq

/-- The variables that stand in for options that are not given. -/
structure Variables where
  verbose : Option String := none
  config : Option String := none
  noColor : Option String := none
  deriving DecidableEq

end Lexis.CommandLine

/-
  Lexis.CommandLine.Reader

  How a command line is read as a request.

  Arguments are read in order, and the first that breaks a rule, or asks for the version or for
  help, decides. Options that any command takes may stand before the name of the command and after
  it, once at each place; the later place counts. A variable stands in for an option at each place
  where the option is not given, so its value has to be right unless the option is given at both.
-/

import Lexis.CommandLine.Request
import Lexis.Number.Numeral

namespace Lexis.CommandLine

/-! ## Options -/

/-- The options that the program knows, at any level. -/
inductive Opt where
  | verbose
  | config
  | noColor
  | format
  | spans
  | maxErrors
  | version
  | help
  deriving DecidableEq

namespace Opt

/-- Whether an option is followed by a value. -/
def takesValue : Opt → Bool
  | config | format | maxErrors => true
  | _ => false

/-- The option of a letter at a level. -/
def ofShort? : Level → Char → Option Opt
  | _, 'v' => some verbose
  | _, 'c' => some config
  | _, 'V' => some version
  | _, 'h' => some help
  | .tokens, 'F' => some format
  | _, _ => none

/-- The option of a name at a level. -/
def ofLong? : Level → String → Option Opt
  | _, "verbose" => some verbose
  | _, "config" => some config
  | _, "no-color" => some noColor
  | _, "version" => some version
  | _, "help" => some help
  | .tokens, "format" => some format
  | .tokens, "spans" => some spans
  | .check, "max-errors" => some maxErrors
  | _, _ => none

end Opt

/-! ## What is given at one level -/

/-- The options and files given at one level so far. -/
structure Given where
  verbose : Bool := false
  noColor : Bool := false
  config : Option String := none
  format : Option String := none
  spans : Bool := false
  maxErrors : Option Nat := none
  inputs : List String := []
  deriving DecidableEq

/-- A number that fits in 64 bits, in decimal and with an optional plus. -/
def readCount? (s : String) : Option Nat :=
  let digits :=
    match s.toList with
    | '+' :: cs => cs
    | cs => cs
  let n := Numeral.ofDigits digits
  if !digits.isEmpty && digits.all Text.isDigit && n < 0x10000000000000000 then some n else none

namespace Given

/-- Takes up an option that has no value. -/
def setFlag (level : Level) (g : Given) : Opt → Except Refusal Given
  | .verbose => if g.verbose then .error .usage else .ok { g with verbose := true }
  | .noColor => if g.noColor then .error .usage else .ok { g with noColor := true }
  | .spans => if g.spans then .error .usage else .ok { g with spans := true }
  | .version => .error (.version level)
  | .help => .error .help
  | .config | .format | .maxErrors => .error .usage

/-- Takes up an option with its value. A path is not empty. -/
def setValue (g : Given) (opt : Opt) (value : String) : Except Refusal Given :=
  match opt with
  | .config =>
    if g.config.isSome || value = "" then .error .usage else .ok { g with config := some value }
  | .format => if g.format.isSome then .error .usage else .ok { g with format := some value }
  | .maxErrors =>
    match readCount? value with
    | some n =>
      if g.maxErrors.isSome then .error .usage else .ok { g with maxErrors := some n }
    | none => .error .usage
  | _ => .error .usage

/-- Takes up a file. -/
def addInput (g : Given) (path : String) : Except Refusal Given :=
  if path = "" then .error .usage else .ok { g with inputs := g.inputs ++ [path] }

end Given

/-! ## One argument -/

/-- What an argument looks like. -/
inductive Shape where
  /-- Two hyphens: only files follow. -/
  | separator
  /-- The name of an option, and what follows the sign `=`. -/
  | long (name : String) (value : Option String)
  /-- Letters of options, the last perhaps with its value. -/
  | short (letters : List Char)
  /-- Anything else; a lone hyphen too. -/
  | plain
  deriving DecidableEq

/-- Tells what an argument looks like. -/
def Shape.of (arg : String) : Shape :=
  match arg.toList with
  | ['-', '-'] => .separator
  | '-' :: '-' :: cs =>
    .long (String.ofList (cs.takeWhile (· ≠ '=')))
      (match cs.dropWhile (· ≠ '=') with
        | [] => none
        | _ :: value => some (String.ofList value))
  | '-' :: c :: cs => .short (c :: cs)
  | _ => .plain

/-- Takes up letters of options; yields the option whose value is still to come, if any. A value
    may follow its letter at once or after the sign `=`. -/
def readShort (level : Level) (g : Given) : List Char → Except Refusal (Given × Option Opt)
  | [] => .ok (g, none)
  | c :: cs =>
    match Opt.ofShort? level c with
    | none => .error .usage
    | some opt =>
      if opt.takesValue then
        match cs with
        | [] => .ok (g, some opt)
        | '=' :: value => (g.setValue opt (String.ofList value)).map (·, none)
        | value => (g.setValue opt (String.ofList value)).map (·, none)
      else
        match g.setFlag level opt with
        | .error refusal => .error refusal
        | .ok g' => readShort level g' cs

/-- Takes up the name of an option; yields the option if its value is still to come. -/
def readLong (level : Level) (g : Given) (name : String) (value : Option String) :
    Except Refusal (Given × Option Opt) :=
  match Opt.ofLong? level name, value with
  | none, _ => .error .usage
  | some opt, some value => (g.setValue opt value).map (·, none)
  | some opt, none =>
    if opt.takesValue then .ok (g, some opt) else (g.setFlag level opt).map (·, none)

/-! ## The two levels -/

/-- Reads the arguments up to the name of a command, where `pending` is an option whose value is
    still to come. -/
def readRoot (pending : Option Opt) (g : Given) :
    List String → Except Refusal (Given × Level × List String)
  | [] => .error .usage
  | arg :: args =>
    match pending, Shape.of arg with
    -- A value that is still to come is taken before the name of a command is looked for.
    | some opt, .plain => (g.setValue opt arg).bind (readRoot none · args)
    | some _, _ => .error .usage
    | none, .separator => .error .usage
    | none, .long name value =>
      (readLong .root g name value).bind fun (g', pending') => readRoot pending' g' args
    | none, .short letters =>
      (readShort .root g letters).bind fun (g', pending') => readRoot pending' g' args
    | none, .plain =>
      if arg = "tokens" then .ok (g, .tokens, args)
      else if arg = "check" then .ok (g, .check, args)
      else if arg = "help" ∧ args.length ≤ 1 ∧ ∀ a ∈ args, a ∈ ["tokens", "check", "help"] then
        .error .help
      else .error .usage

/-- Reads the arguments after the name of a command. -/
def readCommand (level : Level) (pending : Option Opt) (g : Given) :
    List String → Except Refusal Given
  | [] => if pending.isSome then .error .usage else .ok g
  | arg :: args =>
    match pending, Shape.of arg with
    | some opt, .plain => (g.setValue opt arg).bind (readCommand level none · args)
    | some _, _ => .error .usage
    -- A second separator is a file like any other argument.
    | none, .separator => args.foldlM Given.addInput g
    | none, .long name value =>
      (readLong level g name value).bind fun (g', pending') => readCommand level pending' g' args
    | none, .short letters =>
      (readShort level g letters).bind fun (g', pending') => readCommand level pending' g' args
    | none, .plain => (g.addInput arg).bind (readCommand level none · args)

/-! ## Variables -/

/-- A flag from the two places it can be given at and from its variable. -/
def mergeFlag (root command : Bool) (fallback : Option String) : Except Refusal Bool :=
  if root && command then .ok true
  else
    match fallback with
    | none => .ok (root || command)
    | some value =>
      if value = "true" then .ok true
      else if value = "false" then .ok (root || command)
      else .error .usage

/-- A path from the two places it can be given at and from its variable. -/
def mergePath (root command : Option String) (fallback : Option String) :
    Except Refusal (Option String) :=
  if root.isSome && command.isSome then .ok command
  else if fallback = some "" then .error .usage
  else .ok (command <|> root <|> fallback)

/-! ## The whole line -/

/-- Reads a command line, without the name of the program. -/
def read (vars : Variables) (args : List String) : Except Refusal Request := do
  let (root, level, rest) ← readRoot none {} args
  let given ← readCommand level none {} rest
  if given.inputs.isEmpty then throw .usage
  -- Variables are looked at last: a wrong one does not stand in the way of the version or of help.
  let verbose ← mergeFlag root.verbose given.verbose vars.verbose
  let config ← mergePath root.config given.config vars.config
  let noColor ← mergeFlag root.noColor given.noColor vars.noColor
  let command :=
    if level = .check then Command.check given.inputs given.maxErrors
    else Command.tokens given.inputs given.format given.spans
  return { verbose, noColor, config, command }

end Lexis.CommandLine

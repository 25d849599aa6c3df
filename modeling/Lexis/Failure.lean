/-
  Lexis.Failure

  Why a command does not succeed.

  A failure is a cause. Its category, its message and the line that reports it at the end of a run
  follow from it.
-/

import Lexis.Text.Escaped
import Lexis.Text.Utf8

namespace Lexis

/-- An error that the system gives when it is asked to read a file. -/
structure SystemError where
  /-- Number of the error. -/
  code : Nat
  /-- What the system says about it. -/
  message : String
  deriving DecidableEq

namespace SystemError

/-- What is read is a directory. -/
def isDirectory : SystemError := ⟨21, "Is a directory"⟩

/-- Name of the kind of an error, of those that reading gives. -/
def kind (e : SystemError) : String :=
  match e.code with
  | 1 | 13 => "PermissionDenied"
  | 2 => "NotFound"
  | 4 => "Interrupted"
  | 11 => "WouldBlock"
  | 12 => "OutOfMemory"
  | 16 => "ResourceBusy"
  | 20 => "NotADirectory"
  | 21 => "IsADirectory"
  | 22 => "InvalidInput"
  | 27 => "FileTooLarge"
  | 40 => "FilesystemLoop"
  | 110 => "TimedOut"
  | 116 => "StaleNetworkFileHandle"
  | _ => "Uncategorized"

end SystemError

/-- A cause for which a command does not succeed. -/
inductive Failure where
  /-- No file was named. -/
  | noInput
  /-- A path to be read is not that of a regular file. -/
  | notAFile (path : String)
  /-- A source is not UTF-8. -/
  | notUtf8 (path : String) (defect : Utf8.Defect)
  /-- The format asked for does not exist. -/
  | unknownFormat (name : String)
  /-- The format set in the configuration does not exist. -/
  | configuredFormat (name : String)
  /-- The configuration file asked for does not exist. -/
  | missingConfiguration (path : String)
  /-- The configuration is no TOML, or a setting has a value of the wrong type. -/
  | malformedConfiguration
  /-- The system does not let a file be read that is there. -/
  | system (e : SystemError)
  /-- The configuration is not UTF-8. -/
  | configurationNotUtf8
  /-- The sources were read and hold lexical errors. -/
  | lexicalErrors (count : Nat)
  deriving DecidableEq

namespace Failure

/-- What a failure is about. -/
inductive Category where
  | config
  | fileOperation
  | validation
  | commandExecution
  | io
  deriving DecidableEq

/-- The name that a report gives a category. -/
def Category.name : Category → String
  | config => "Config"
  | fileOperation => "FileOperation"
  | validation => "Validation"
  | commandExecution => "CommandExecution"
  | io => "Io"

/-- What a message of the category starts with. -/
def Category.heading : Category → String
  | config => "Configuration error: "
  | fileOperation => "File operation failed: "
  | validation => "Validation error: "
  | commandExecution => "Command execution failed: "
  | io => "IO error: "

/-- The category of a failure. -/
def category : Failure → Category
  | noInput | notAFile _ | unknownFormat _ => .validation
  | notUtf8 .. => .fileOperation
  | configuredFormat _ | missingConfiguration _ | malformedConfiguration => .config
  | system _ | configurationNotUtf8 => .io
  | lexicalErrors _ => .commandExecution

/-- The failure in words, without its category. -/
def detail : Failure → String
  | noInput => "No input files specified"
  | notAFile path => "Input path is not a file: " ++ path
  | notUtf8 path defect => "Source is not valid UTF-8: " ++ path ++ ": " ++ defect.message
  | unknownFormat name => "Unknown format: " ++ name
  | configuredFormat name => "Invalid format in configuration: " ++ name
  | missingConfiguration path => "Configuration file not found: " ++ path
  | malformedConfiguration => "Failed to parse configuration:"
  | system e => e.message ++ " (os error " ++ toString e.code ++ ")"
  | configurationNotUtf8 => "stream did not contain valid UTF-8"
  | lexicalErrors count => toString count ++ " lexical error(s) found"

/-- The failure in words, with what its category puts before them. -/
def message (f : Failure) : String :=
  f.category.heading ++ f.detail

/-- The last line of a run that fails: the category with the quoted detail.

    What is wrong with a malformed configuration is not told, and its line breaks off where that
    would follow. -/
def report (f : Failure) : String :=
  "Error: " ++ f.category.name ++ "(" ++
    match f with
    | system e => "Os \x7b code: " ++ toString e.code ++ ", kind: " ++ e.kind ++ ", message: " ++
      String.ofList (Text.quote e.message.toList) ++ " \x7d)"
    | configurationNotUtf8 =>
      "Error \x7b kind: InvalidData, message: \"stream did not contain valid UTF-8\" \x7d)"
    | malformedConfiguration => "\"" ++ f.detail
    | _ => String.ofList (Text.quote f.detail.toList) ++ ")"

end Failure

end Lexis

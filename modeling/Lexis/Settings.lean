/-
  Lexis.Settings

  Settings, and how a configuration file sets them.

  A setting that the file leaves out keeps its default, a key that names no setting is passed over,
  and a value of the wrong type makes the whole file malformed. The settings of a section stand in
  a table, or in a list in a fixed order; a date in place of a section sets nothing.
-/

import Lexis.Files.Basic
import Lexis.Toml.Document

namespace Lexis

/-- What a configuration file can set. -/
structure Settings where
  /-- Whether a run logs its steps. -/
  verbose : Bool := false
  /-- Name of the format of dumps; it need not exist. -/
  format : String := "text"
  /-- Whether a text dump shows spans. -/
  showSpans : Bool := false
  /-- How many errors of one file a check lists; without it, all. -/
  maxErrors : Option Nat := none
  deriving DecidableEq, Inhabited

namespace Settings

open Lexis.Toml (Value Table)

/-! ## Reading values -/

/-- What a section sets, by name; `names` is the order of its settings in a list. -/
def section? (names : List String) : Option Value → Option (String → Option Value)
  | none => some fun _ => none
  | some (.table t) => some t.get?
  | some (.array items) => some fun name => items[names.idxOf name]?
  | some (.tables earlier last) =>
    some fun name => (earlier ++ [last])[names.idxOf name]?.map .table
  | some .dateTime => some fun _ => none
  | some _ => none

/-- A flag that is off unless it is set. -/
def boolean? : Option Value → Option Bool
  | none => some false
  | some (.boolean b) => some b
  | some _ => none

/-- A text that has a default. -/
def string? (default : String) : Option Value → Option String
  | none => some default
  | some (.string s) => some s
  | some _ => none

/-- A number that need not be set. It has no sign, and a negative one is of the wrong type. -/
def natural? : Option Value → Option (Option Nat)
  | none => some none
  | some (.integer (.ofNat n)) => some (some n)
  | some _ => none

/-- The settings of a root table. -/
def ofTable? (root : Table) : Option Settings := do
  let verbose ← boolean? (root.get? "verbose")
  let output ← section? ["format", "show_spans"] (root.get? "output")
  let format ← string? "text" (output "format")
  let showSpans ← boolean? (output "show_spans")
  let check ← section? ["max_errors"] (root.get? "check")
  let maxErrors ← natural? (check "max_errors")
  return { verbose, format, showSpans, maxErrors }

/-! ## Loading -/

/-- The settings of a configuration text. -/
def parse (cs : List Char) : Except Failure Settings :=
  match (Toml.parse? cs).bind ofTable? with
  | some settings => .ok settings
  | none => .error .malformedConfiguration

/-- The settings of the configuration file at a path. -/
def load (files : Files) (path : String) : Except Failure Settings :=
  (files.readConfiguration path).bind parse

/-- The settings of the first configuration file that exists, or the defaults. -/
def loadFirst (files : Files) (paths : List String) : Except Failure Settings :=
  match files.findExisting? paths with
  | some path => load files path
  | none => .ok {}

end Settings

end Lexis

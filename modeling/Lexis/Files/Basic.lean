/-
  Lexis.Files.Basic

  What a run can see of the file system: for each path, what is found there.
-/

import Lexis.Failure

namespace Lexis

/-- What a path names. -/
inductive Entry where
  | missing
  | directory
  /-- A file that the system does not let be read. -/
  | unreadable (e : SystemError)
  | file (bytes : List UInt8)
  deriving DecidableEq, Inhabited

/-- The file system as a run sees it. -/
abbrev Files := String → Entry

namespace Files

/-- Reads a source text; one byte order mark before it is not part of it. -/
def readSource (files : Files) (path : String) : Except Failure String :=
  match files path with
  | .missing | .directory => .error (.notAFile path)
  | .unreadable e => .error (.system e)
  | .file bytes =>
    match Utf8.decode bytes with
    | .error defect => .error (.notUtf8 path defect)
    | .ok cs => .ok (String.ofList (Utf8.dropByteOrderMark cs))

/-- Reads a configuration text. -/
def readConfiguration (files : Files) (path : String) : Except Failure (List Char) :=
  match files path with
  | .missing => .error (.missingConfiguration path)
  | .directory => .error (.system .isDirectory)
  | .unreadable e => .error (.system e)
  | .file bytes =>
    match Utf8.decode bytes with
    | .error _ => .error .configurationNotUtf8
    | .ok cs => .ok cs

/-- The first of some paths that names anything. -/
def findExisting? (files : Files) (paths : List String) : Option String :=
  paths.find? (files · ≠ .missing)

end Files

end Lexis

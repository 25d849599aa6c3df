/-
  Lexis.Toml.Document

  TOML documents: values, statements, and the table that the statements define.

  A document is read as a list of statements, each on a line of its own, and the statements then
  build the root table in order. Arrays and inline tables nest to a bounded depth.
-/

import Lexis.Toml.Scalar
import Lexis.Text.Utf8

namespace Lexis.Toml

/-! ## Values -/

/-- Yields what a text starts with, and the rest. -/
abbrev Reader (α : Type) := List Char → Option (α × List Char)

/-- Reads the items of an array from after its opening bracket; a comma may follow the last. -/
def readItems? (item : Reader Value) (cs : List Char) : Option (List Value × List Char) := do
  match skipFiller false cs with
  | ']' :: rest => some ([], rest)
  | start =>
    let (v, rest) ← item start
    match skipFiller false rest with
    | ']' :: rest => some ([v], rest)
    | ',' :: rest =>
      if rest.length < cs.length then
        let (vs, rest) ← readItems? item rest
        some (v :: vs, rest)
      else none
    | _ => none
termination_by cs.length

/-- Reads a key, the sign after it and a value, and yields the key as its front and its end. -/
def readPair? (item : Reader Value) (cs : List Char) :
    Option ((List String × String × Value) × List Char) := do
  let (path, key, rest) ← readPath? cs
  match rest with
  | '=' :: rest =>
    let (v, rest) ← item (skipSpace rest)
    some ((path, key, v), rest)
  | _ => none

/-- Reads the pairs of an inline table that has some; no comma follows the last. -/
def readPairs? (item : Reader Value) (cs : List Char) :
    Option (List (List String × String × Value) × List Char) := do
  let (pair, rest) ← readPair? item cs
  match skipSpace rest with
  | '}' :: rest => some ([pair], rest)
  | ',' :: rest =>
    if rest.length < cs.length then
      let (pairs, rest) ← readPairs? item rest
      some (pair :: pairs, rest)
    else none
  | _ => none
termination_by cs.length

/-- The inline table of some pairs. -/
def inlineTable? (pairs : List (List String × String × Value)) : Option Value :=
  (pairs.foldlM (fun t (path, key, v) => Table.define path key v t) (Table.empty .inline)).map
    .table

/-- Reads a value whose arrays and inline tables nest less than `depth` deep. -/
def readValue? : (depth : Nat) → Reader Value
  | 0 => fun _ => none
  | depth + 1 => fun cs =>
    match cs with
    | '[' :: rest =>
      if depth = 0 then none
      else (readItems? (readValue? depth) rest).map fun (vs, rest) => (.array vs, rest)
    | '{' :: rest =>
      if depth = 0 then none
      else
        match skipSpace rest with
        | '}' :: rest => some (.table (.empty .inline), rest)
        | _ => do
          let (pairs, rest) ← readPairs? (readValue? depth) rest
          some (← inlineTable? pairs, rest)
    | c :: _ =>
      if c = '"' ∨ c = '\x27' then
        (readString? cs).map fun (s, rest) => (.string (String.ofList s), rest)
      else readScalar? cs
    | [] => none

/-- Bound on the nesting of arrays and inline tables. -/
def maxDepth : Nat := 80

/-! ## Statements -/

/-- What a line of a document says. -/
inductive Statement where
  /-- Opens the table at a path. -/
  | header (path : List String) (key : String)
  /-- Opens one more table of the name at a path. -/
  | arrayHeader (path : List String) (key : String)
  /-- Gives a key of the table that is open its value. -/
  | pair (path : List String) (key : String) (value : Value)

/-- Reads the statement that a line starts with. -/
def readStatement? (cs : List Char) : Option (Statement × List Char) := do
  match cs with
  | '[' :: '[' :: cs =>
    let (path, key, rest) ← readPath? cs
    match rest with
    | ']' :: ']' :: rest => some (.arrayHeader path key, rest)
    | _ => none
  | '[' :: cs =>
    let (path, key, rest) ← readPath? cs
    match rest with
    | ']' :: rest => some (.header path key, rest)
    | _ => none
  | _ =>
    let ((path, key, v), rest) ← readPair? (readValue? maxDepth) cs
    some (.pair path key v, rest)

/-- Reads statements up to the end of the text, each with its line end. -/
def readStatements? (cs : List Char) : Option (List Statement) := do
  match skipSpace cs with
  | [] => some []
  | c :: start =>
    if c = '#' ∨ c = '\n' ∨ c = '\r' then
      let rest ← readLineEnd? (c :: start)
      if rest.length < cs.length then readStatements? rest else none
    else
      let (statement, rest) ← readStatement? (c :: start)
      let rest ← readLineEnd? rest
      if rest.length < cs.length then
        let statements ← readStatements? rest
        some (statement :: statements)
      else none
termination_by cs.length

/-! ## The root table -/

/-- Carries statements out on the root table, where `header` is the path of the table that is
    open. -/
def build? (header : List String) : List Statement → Table → Option Table
  | [], root => some root
  | .header path key :: rest, root =>
    (root.openTable path key).bind (build? (path ++ [key]) rest)
  | .arrayHeader path key :: rest, root =>
    (root.appendTable path key).bind (build? (path ++ [key]) rest)
  | .pair path key v :: rest, root =>
    (root.modifyAt false (·.define path key v) header).bind (build? header rest)

/-- The root table of a document; a byte order mark may stand before it. -/
def parse? (cs : List Char) : Option Table :=
  (readStatements? (Utf8.dropByteOrderMark cs)).bind (build? [] · (.empty .header))

end Lexis.Toml

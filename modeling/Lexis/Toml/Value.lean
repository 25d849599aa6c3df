/-
  Lexis.Toml.Value

  TOML values, and the tables that a document builds up.

  A table remembers how it came to be, because that decides who may add to it: a header or a key
  may extend a table that was only implied on the way to another, a dotted key may extend one that
  dotted keys made, and an inline table is complete once it is closed. The numbers that no setting
  is made of are kept by their kind alone.
-/

namespace Lexis.Toml

/-- How a table came to be. -/
inductive Origin where
  /-- The root, or named by a header of its own. -/
  | header
  /-- On the way to a table that a header names. -/
  | implied
  /-- On the way to a value that a dotted key names. -/
  | dotted
  /-- Written in braces. -/
  | inline
  deriving DecidableEq

mutual

/-- What a key can be set to. Of floats and dates only that they are such is kept. -/
inductive Value where
  | string (s : String)
  | integer (n : Int)
  | float
  | boolean (b : Bool)
  | dateTime
  | array (items : List Value)
  | table (t : Table)
  /-- Tables of one name, each opened by a header in double brackets. -/
  | tables (earlier : List Table) (last : Table)

/-- A table: where it comes from, and its keys in the order in which they were first named. -/
inductive Table where
  | mk (origin : Origin) (entries : List (String × Value))

end

namespace Table

/-- How a table has come about. -/
def origin : Table → Origin
  | mk origin _ => origin

/-- The entries of a table in the order in which they were set. -/
def entries : Table → List (String × Value)
  | mk _ entries => entries

/-- A table without entries. -/
def empty (origin : Origin) : Table :=
  ⟨origin, []⟩

/-- The table of a header with nothing below it. -/
instance : Inhabited Table := ⟨empty .header⟩

/-- What a table has for a key. -/
def get? (t : Table) (key : String) : Option Value :=
  t.entries.lookup key

/-- Gives a key a value, in place of the one it had. -/
def set (t : Table) (key : String) (v : Value) : Table :=
  ⟨t.origin, t.entries.filter (·.1 ≠ key) ++ [(key, v)]⟩

/-! ## Paths -/

/-- Changes the table at a path; tables on the way that do not exist are made.

    The path is the front of a dotted key, or else of a header. No path leads into a value that is
    not a table or into an inline table, and a dotted key does not lead through a table that has a
    header. Of tables of one name the last is meant. -/
def modifyAt (dotted : Bool) (change : Table → Option Table) : List String → Table → Option Table
  | [], t => change t
  | key :: keys, t =>
    match t.get? key with
    | none =>
      (modifyAt dotted change keys (empty (if dotted then .dotted else .implied))).map
        fun s => t.set key (.table s)
    | some (.table s) =>
      if s.origin = .inline || (dotted && s.origin = .header) then none
      else (modifyAt dotted change keys s).map fun s' => t.set key (.table s')
    | some (.tables earlier last) =>
      (modifyAt dotted change keys last).map fun last' => t.set key (.tables earlier last')
    | some _ => none

/-- Gives the key at the end of a dotted key its value. The table it goes to must be the one the
    key starts from or one that dotted keys made, and must not have the key. -/
def define (path : List String) (key : String) (v : Value) : Table → Option Table :=
  modifyAt true (fun t =>
    if (!path.isEmpty && t.origin ≠ .dotted) || (t.get? key).isSome then none
    else some (t.set key v)) path

/-- Opens the table that a header names: a new one, or one that was only implied. -/
def openTable (path : List String) (key : String) : Table → Option Table :=
  modifyAt false (fun t =>
    match t.get? key with
    | none => some (t.set key (.table (empty .header)))
    | some (.table ⟨.implied, entries⟩) => some (t.set key (.table ⟨.header, entries⟩))
    | some _ => none) path

/-- Opens one more table of the name that a header in double brackets gives. -/
def appendTable (path : List String) (key : String) : Table → Option Table :=
  modifyAt false (fun t =>
    match t.get? key with
    | none => some (t.set key (.tables [] (empty .header)))
    | some (.tables earlier last) => some (t.set key (.tables (earlier ++ [last]) (empty .header)))
    | some _ => none) path

end Table

end Lexis.Toml

/-
  Lexis.Files.Tree

  A tree of files, and what a path names in it.

  A path is read one component after the other from a directory of the tree. A component is looked
  up in the directory reached so far, so only a directory can be left again by `..`, and a path
  that ends in a slash names a directory or nothing. Above the tree there are directories whose
  other contents are unknown; names looked up in them are missing.
-/

import Lexis.Files.Basic

namespace Lexis

/-- Files and directories by the components of their path from the root of the tree; of two with
    one path the later counts. Every directory on the way to one of them exists. -/
structure Tree where
  entries : List (List String × Entry)
  deriving Inhabited

namespace Tree

/-- A place in the tree, or a directory above it. -/
inductive Place where
  | above
  | inside (path : List String)
  deriving DecidableEq

/-- What stands at a path from the root of the tree. -/
def entryAt (t : Tree) (path : List String) : Entry :=
  match (t.entries.filter (·.1 = path)).getLast? with
  | some (_, entry) => entry
  | none =>
    if path = [] || t.entries.any (fun (p, _) => path.isPrefixOf p) then .directory else .missing

/-- What stands at a place. -/
def entry (t : Tree) : Place → Entry
  | .above => .directory
  | .inside path => t.entryAt path

/-- The place that one component leads to from a directory, if it is known. -/
def Place.enter? (place : Place) (name : String) : Option Place :=
  if name = "" ∨ name = "." then some place
  else
    match place with
    | .above => if name = ".." then some .above else none
    | .inside path =>
      if name ≠ ".." then some (.inside (path ++ [name]))
      else if path = [] then some .above
      else some (.inside path.dropLast)

/-- What is found by following components from a place. -/
def follow (t : Tree) : Place → List String → Entry
  | place, [] => t.entry place
  | place, name :: names =>
    if t.entry place = .directory then
      match place.enter? name with
      | some next => follow t next names
      | none => .missing
    else .missing

/-- The tree of some files and directories whose names are paths from one directory. The names lead
    through directories only. -/
def ofNamed (directory : List String) (named : List (String × Entry)) : Tree :=
  ⟨named.map fun (name, entry) =>
    ((name.splitOn "/").foldl (fun path component =>
      if component = "" ∨ component = "." then path
      else if component = ".." then path.dropLast
      else path ++ [component]) directory, entry)⟩

/-- What paths name when they start at a directory of the tree. -/
def files (t : Tree) (directory : List String) : Files := fun path =>
  if path = "" then .missing
  else if path.toList.head? = some '/' then t.follow .above (path.splitOn "/")
  else t.follow (.inside directory) (path.splitOn "/")

end Tree

end Lexis

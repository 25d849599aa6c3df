/-
  Lexis.Token.Keyword

  The words that are keywords.

  The match is exact: a longer word, a shorter one or one in another case is no keyword.
-/

import Lexis.Token.Kind

namespace Lexis.Keyword

/-- Every keyword with its kind. -/
def table : List (String × Kind) :=
  [("and", .kwAnd), ("class", .kwClass), ("def", .kwDef), ("else", .kwElse),
   ("false", .kwFalse), ("for", .kwFor), ("fun", .kwFun), ("if", .kwIf), ("let", .kwLet),
   ("nil", .kwNil), ("or", .kwOr), ("print", .kwPrint), ("return", .kwReturn),
   ("super", .kwSuper), ("this", .kwThis), ("true", .kwTrue), ("var", .kwVar),
   ("while", .kwWhile)]

/-- The kind of the keyword that a word spells. -/
def ofWord? (word : String) : Option Kind :=
  table.lookup word

theorem mem_table_of_ofWord? {word : String} {kind : Kind} (h : ofWord? word = some kind) :
    (word, kind) ∈ table := by
  obtain ⟨before, after, ht, -⟩ := List.lookup_eq_some_iff.1 h
  exact ht ▸ List.mem_append_right before List.mem_cons_self

/-- The kinds of keywords are kinds that no other rule gives a word. -/
theorem isKeyword_of_ofWord? {word : String} {kind : Kind} (h : ofWord? word = some kind) :
    kind.isKeyword = true :=
  (show ∀ entry ∈ table, entry.2.isKeyword = true by decide) _ (mem_table_of_ofWord? h)

end Lexis.Keyword

/-
  Lexis.Proofs.Scan.Item

  A text cut into items: trivia and the piece after them.

  The cut does not depend on where the text stands in a source; only the tokens made of it do. The
  last item, and only the last, has the empty piece of the end token, and the items put together
  are the text.
-/

import Lexis.Proofs.Scan.Piece
import Lexis.Proofs.Scan.Trivia

namespace Lexis

open Lexis.Text

/-- Trivia and the piece after them. -/
structure Item where
  gap : List Char
  piece : Piece

namespace Item

/-- All that an item takes up. -/
def text (item : Item) : List Char :=
  item.gap ++ item.piece.text

/-- The token of an item that stands after `u`. -/
def token (u : List Char) (item : Item) : Token :=
  item.piece.token (1 + lineFeeds (u ++ item.gap))
    ⟨byteSize (u ++ item.gap), byteSize (u ++ item.text)⟩

/-- The first item of a text. -/
def first (cs : List Char) : Item :=
  ⟨Trivia.leading false cs, Piece.next (Trivia.rest cs)⟩

/-- What stands behind the first item of a text. -/
def rest (cs : List Char) : List Char :=
  cs.drop (first cs).text.length

theorem isPrefix_text_first (cs : List Char) : (first cs).text <+: cs := by
  obtain ⟨r, hr⟩ := Piece.isPrefix_text_next (Trivia.rest cs)
  refine ⟨r, ?_⟩
  rw [text, first, List.append_assoc, hr, Trivia.leading_append_rest]

/-- What stands behind the piece is what its rule left over. -/
theorem rest_eq_drop (cs : List Char) :
    rest cs = (Trivia.rest cs).drop (first cs).piece.text.length := by
  rw [rest, text, List.length_append, Trivia.rest, List.drop_drop]
  rfl

/-- An item and the rest behind it are the text. -/
theorem text_append_rest (cs : List Char) : (first cs).text ++ rest cs = cs := by
  conv_rhs => rw [← List.take_append_drop (first cs).text.length cs]
  rw [← List.prefix_iff_eq_take.1 (isPrefix_text_first cs), rest]

/-- An item with a piece leaves less: the measure of `items`. -/
theorem length_rest {cs : List Char} (h : (first cs).piece.text ≠ []) :
    (rest cs).length < cs.length := by
  have hlength := congrArg List.length (text_append_rest cs)
  have hpos := List.length_pos_iff.2 h
  rw [List.length_append, text, List.length_append] at hlength
  omega

/-- The first item has an empty piece only if the text is all trivia. -/
theorem piece_first_eq_nil {cs : List Char} :
    (first cs).piece.text = [] ↔ Trivia.leading false cs = cs := by
  have happend := Trivia.leading_append_rest cs
  rw [first, Piece.text_next_eq_nil]
  constructor
  · intro hnil
    rwa [hnil, List.append_nil] at happend
  · intro heq
    rw [heq] at happend
    exact List.append_right_eq_self.1 happend

theorem isEof_token_first {u cs : List Char} :
    ((first cs).token u).isEof = true ↔ (first cs).piece.text = [] := by
  rw [token, Piece.isEof_token, first, Piece.outcome_next_eq_eof, Piece.text_next_eq_nil]

@[simp] theorem span_token (u : List Char) (item : Item) :
    (item.token u).span = ⟨byteSize (u ++ item.gap), byteSize (u ++ item.text)⟩ := by
  rw [token, Piece.token]
  cases item.piece.outcome with
  | ok kind => rfl
  | error e => rfl

/-- An end token is the one that stands behind all the text. -/
theorem token_of_last {u cs : List Char} (h : (first cs).piece.text = []) :
    (first cs).token u = (first []).token (u ++ cs) := by
  have hgap : Trivia.leading false cs = cs := piece_first_eq_nil.1 h
  have hrest : Trivia.rest cs = [] := Piece.text_next_eq_nil.1 h
  have hfirst : first cs = ⟨cs, Piece.next []⟩ := by rw [first, hgap, hrest]
  rw [hfirst]
  simp [token, text, first, Trivia.leading, Trivia.rest, Piece.next]

end Item

/-- All items of a text. -/
def items (cs : List Char) : List Item :=
  if h : (Item.first cs).piece.text = [] then [Item.first cs]
  else
    have : (Item.rest cs).length < cs.length := Item.length_rest h
    Item.first cs :: items (Item.rest cs)
termination_by cs.length

/-- The tokens of items that stand after `u`. -/
def tokensAfter (u : List Char) : List Item → List Token
  | [] => []
  | item :: rest => item.token u :: tokensAfter (u ++ item.text) rest

/-- The tokens of a source, with no limit on its lines. -/
def tokens (source : String) : List Token :=
  tokensAfter [] (items source.toList)

theorem items_of_last {cs : List Char} (h : (Item.first cs).piece.text = []) :
    items cs = [Item.first cs] := by
  rw [items, dif_pos h]

theorem items_of_piece {cs : List Char} (h : (Item.first cs).piece.text ≠ []) :
    items cs = Item.first cs :: items (Item.rest cs) := by
  rw [items, dif_neg h]

/-- Two cases for the items of a text: it is all trivia, or has a piece and a rest. -/
theorem items_induction {motive : List Char → Prop}
    (last : ∀ cs, (Item.first cs).piece.text = [] → motive cs)
    (piece : ∀ cs, (Item.first cs).piece.text ≠ [] → motive (Item.rest cs) → motive cs)
    (cs : List Char) : motive cs := by
  induction hn : cs.length using Nat.strongRecOn generalizing cs with
  | ind n ih =>
    by_cases h : (Item.first cs).piece.text = []
    · exact last cs h
    · exact piece cs h (ih _ (hn ▸ Item.length_rest h) _ rfl)

theorem text_of_last {cs : List Char} (h : (Item.first cs).piece.text = []) :
    (Item.first cs).text = cs := by
  rw [Item.text, h, List.append_nil]
  exact Item.piece_first_eq_nil.1 h

/-- The items of a text put together are the text. -/
theorem flatMap_text_items (cs : List Char) : (items cs).flatMap Item.text = cs := by
  induction cs using items_induction with
  | last cs h => rw [items_of_last h, List.flatMap_singleton, text_of_last h]
  | piece cs h ih => rw [items_of_piece h, List.flatMap_cons, ih, Item.text_append_rest]

theorem head?_items (cs : List Char) : (items cs).head? = some (Item.first cs) := by
  by_cases h : (Item.first cs).piece.text = []
  · rw [items_of_last h, List.head?_cons]
  · rw [items_of_piece h, List.head?_cons]

theorem exists_items_eq_cons (cs : List Char) : ∃ its, items cs = Item.first cs :: its :=
  List.head?_eq_some_iff.1 (head?_items cs)

theorem length_items_pos (cs : List Char) : 0 < (items cs).length := by
  apply List.length_pos_iff.2
  intro hnil
  have hhead := head?_items cs
  rw [hnil] at hhead
  cases hhead

/-- The last item and no other has an empty piece. -/
theorem piece_getElem_items {cs : List Char} {i : Nat} (hi : i < (items cs).length) :
    ((items cs)[i]).piece.text = [] ↔ i + 1 = (items cs).length := by
  -- Only the last item has no piece, and the index counts down to it.
  induction cs using items_induction generalizing i with
  | last cs h =>
    have hzero : i = 0 := by
      rw [items_of_last h] at hi
      exact Nat.lt_one_iff.1 hi
    subst hzero
    simp [items_of_last h, h]
  | piece cs h ih =>
    have hpos := length_items_pos (Item.rest cs)
    simp only [items_of_piece h] at hi ⊢
    cases i with
    | zero =>
      simp only [List.getElem_cons_zero, List.length_cons, h, false_iff]
      omega
    | succ i =>
      simp only [List.getElem_cons_succ, List.length_cons, Nat.add_right_cancel_iff]
      exact ih (by simpa using hi)

/-! ## The text up to an item -/

/-- What the first `i` items of a text take up. -/
def taken (cs : List Char) (i : Nat) : List Char :=
  ((items cs).take i).flatMap Item.text

@[simp] theorem taken_zero (cs : List Char) : taken cs 0 = [] := rfl

theorem taken_of_length_le {cs : List Char} {i : Nat} (hi : (items cs).length ≤ i) :
    taken cs i = cs := by
  rw [taken, List.take_of_length_le hi, flatMap_text_items]

theorem taken_succ {cs : List Char} {i : Nat} (hi : i < (items cs).length) :
    taken cs (i + 1) = taken cs i ++ ((items cs)[i]).text := by
  rw [taken, List.take_add_one, List.flatMap_append, List.getElem?_eq_getElem hi]
  simp [taken]

/-- More items take up more of the text. -/
theorem taken_isPrefix (cs : List Char) {i j : Nat} (h : i ≤ j) : taken cs i <+: taken cs j := by
  obtain ⟨its, hits⟩ := List.take_prefix_take_left (l := items cs) h
  refine ⟨its.flatMap Item.text, ?_⟩
  rw [taken, taken, ← hits, List.flatMap_append]

theorem taken_isPrefix_self (cs : List Char) (i : Nat) : taken cs i <+: cs := by
  have hfront := taken_isPrefix cs (Nat.le_add_right i (items cs).length)
  rwa [taken_of_length_le (Nat.le_add_left _ i)] at hfront

/-- Behind the first items stands a text whose items are the others. -/
theorem exists_items_eq_drop {cs : List Char} {i : Nat} (hi : i < (items cs).length) :
    ∃ r, cs = taken cs i ++ r ∧ items r = (items cs).drop i := by
  induction cs using items_induction generalizing i with
  | last cs h =>
    have hzero : i = 0 := by
      rw [items_of_last h] at hi
      exact Nat.lt_one_iff.1 hi
    subst hzero
    exact ⟨cs, rfl, rfl⟩
  | piece cs h ih =>
    cases i with
    | zero => exact ⟨cs, rfl, rfl⟩
    | succ i =>
      -- Item `i + 1` of the text is item `i` of what stands behind the first.
      rw [items_of_piece h, List.length_cons, Nat.add_lt_add_iff_right] at hi
      obtain ⟨r, hr, hitems⟩ := ih hi
      refine ⟨r, ?_, ?_⟩
      · rw [taken, items_of_piece h, List.take_succ_cons, List.flatMap_cons, List.append_assoc]
        rw [taken] at hr
        rw [← hr, Item.text_append_rest]
      · rw [items_of_piece h, List.drop_succ_cons, hitems]

/-- The next item behind the first `i` is item `i`. -/
theorem exists_first_eq_getElem {cs : List Char} {i : Nat} (hi : i < (items cs).length) :
    ∃ r, cs = taken cs i ++ r ∧ Item.first r = (items cs)[i] := by
  obtain ⟨r, hr, hitems⟩ := exists_items_eq_drop hi
  refine ⟨r, hr, ?_⟩
  have hhead := head?_items r
  rw [hitems, List.head?_drop, List.getElem?_eq_getElem hi] at hhead
  exact (Option.some.inj hhead).symm

/-! ## The tokens of items -/

@[simp] theorem length_tokensAfter (u : List Char) (its : List Item) :
    (tokensAfter u its).length = its.length := by
  induction its generalizing u with
  | nil => rfl
  | cons item its ih => rw [tokensAfter, List.length_cons, ih, List.length_cons]

/-- A token knows of the items before its own only what they take up. -/
theorem getElem?_tokensAfter (u : List Char) (its : List Item) (i : Nat) :
    (tokensAfter u its)[i]? =
      its[i]?.map fun item => item.token (u ++ (its.take i).flatMap Item.text) := by
  induction its generalizing u i with
  | nil => rfl
  | cons item its ih =>
    cases i with
    | zero => simp [tokensAfter]
    | succ i => simp [tokensAfter, ih]

theorem length_tokens (source : String) :
    (tokens source).length = (items source.toList).length :=
  length_tokensAfter _ _

/-- The token at an index is that of the item there, behind all that was taken. -/
theorem getElem_tokens {source : String} {i : Nat} (hi : i < (items source.toList).length) :
    (tokens source)[i]? = some (((items source.toList)[i]).token (taken source.toList i)) := by
  rw [tokens, getElem?_tokensAfter, List.getElem?_eq_getElem hi]
  rfl

/-- Every token is the first of what stands behind some beginning of the source. -/
theorem exists_of_mem_tokens {source : String} {t : Token} (h : t ∈ tokens source) :
    ∃ u r, source.toList = u ++ r ∧ t = (Item.first r).token u := by
  obtain ⟨i, hi⟩ := List.mem_iff_getElem?.1 h
  have hlt : i < (items source.toList).length := by
    rw [← length_tokens]
    exact (List.getElem?_eq_some_iff.1 hi).1
  obtain ⟨r, hr, hfirst⟩ := exists_first_eq_getElem hlt
  refine ⟨taken source.toList i, r, hr, ?_⟩
  rw [getElem_tokens hlt, Option.some.injEq] at hi
  rw [hfirst, hi]

end Lexis

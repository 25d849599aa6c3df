/-
  Lexis.Proofs.Cursor.After

  A cursor as a split of its source into what has been read and what has not.

  `after source u` is the cursor that has read `u`, and every state that reading can reach has this
  form. Each step of such a cursor is an equation about the unread text; the only fault left in it
  is that of the line limit, which `reach` states once: a text can be read if and only if its line
  feeds keep to the limit.
-/

import Lexis.Cursor.Basic
import Lexis.Proofs.Text.Place

namespace Lexis.Cursor

open Lexis.Text

/-! ## Where a cursor stands -/

/-- A cursor between two parts of its source, on whatever line. -/
structure Between (c : Cursor) (u r : List Char) : Prop where
  toList_eq : c.source.toList = u ++ r
  position_eq : c.position = byteSize u

/-- Each cut of the source is a place of the cursor. -/
theorem exists_place {c : Cursor} {u r : List Char} (h : c.source.toList = u ++ r) :
    ∃ p, c.place (byteSize u) = .ok p ∧ p.Splits (String.ofList u) (String.ofList r) :=
  ⟨c.source.pos ⟨byteSize u⟩ (isValid_byteSize h), dif_pos (isValid_byteSize h), splits_pos h⟩

namespace Between

variable {c : Cursor} {u r : List Char}

/-- Between two parts of the source what remains is the second. -/
theorem remaining_eq (h : c.Between u r) : c.remaining = .ok (String.ofList r) := by
  obtain ⟨p, hp, hsplits⟩ := exists_place h.toList_eq
  unfold remaining
  rw [h.position_eq, hp, Fault.map_ok, hsplits.copy_sliceFrom_eq]

theorem nth?_eq (h : c.Between u r) (n : Nat) : c.nth? n = .ok r[n]? := by
  obtain ⟨p, hp, hsplits⟩ := exists_place h.toList_eq
  unfold nth?
  rw [h.position_eq, hp, Fault.map_ok, nth?_of_splits hsplits]

/-- So does the peek, with the end mark past the last character. -/
theorem peek_eq (h : c.Between u r) {n : Nat} (hn : c.position + n ≤ maxOffset) :
    c.peek n = .ok (r[n]?.getD endMark) := by
  unfold peek
  rw [if_neg (Nat.not_lt.2 hn), h.position_eq]
  -- What the window of ASCII bytes finds is what counting characters would find.
  split
  next x hx => rw [getElem?_of_asciiAt? h.toList_eq hx, Option.getD_some]
  · rw [h.nth?_eq, Fault.map_ok]

end Between

/-- The source reads `u` and then `r`, and all its offsets are within the limit. -/
structure Parts (source : String) (u r : List Char) : Prop where
  toList_eq : source.toList = u ++ r
  size_le : source.utf8ByteSize ≤ maxOffset

namespace Parts

variable {source : String} {u v r : List Char}

theorem whole (h : source.utf8ByteSize ≤ maxOffset) : Parts source [] source.toList :=
  ⟨rfl, h⟩

/-- What is read next moves over to what has been read. -/
theorem read (h : Parts source u (v ++ r)) : Parts source (u ++ v) r :=
  ⟨by rw [h.toList_eq, List.append_assoc], h.size_le⟩

/-- The bytes of both parts together fit into an offset. -/
theorem byteSize_add (h : Parts source u r) : byteSize u + byteSize r ≤ maxOffset := by
  rw [← byteSize_append, ← h.toList_eq, byteSize_toList]
  exact h.size_le

end Parts

/-- The cursor that has read `u`. -/
def after (source : String) (u : List Char) : Cursor :=
  ⟨source, byteSize u, 1 + lineFeeds u⟩

/-- The cursor that has read `u`, if the lines of `u` keep to the limit. -/
def reach (source : String) (u : List Char) : Except Fault Cursor :=
  if lineFeeds u < maxLine then .ok (after source u) else .error .lineOverflow

variable {source : String} {u v r : List Char}

@[simp] theorem after_source : (after source u).source = source := rfl

@[simp] theorem after_position : (after source u).position = byteSize u := rfl

@[simp] theorem after_line : (after source u).line = 1 + lineFeeds u := rfl

/-- As long as the line counter has room, the cursor stands behind what was read. -/
theorem reach_of_lt (h : lineFeeds u < maxLine) : reach source u = .ok (after source u) :=
  if_pos h

/-- With 2^32 - 1 line feeds read the counter has overflowed. -/
theorem reach_of_le (h : maxLine ≤ lineFeeds u) : reach source u = .error .lineOverflow :=
  if_neg (Nat.not_lt.2 h)

/-- Once the limit is passed, no more can be read. -/
theorem reach_append_of_le (h : maxLine ≤ lineFeeds u) (v : List Char) :
    reach source (u ++ v) = .error .lineOverflow := by
  apply reach_of_le
  rw [lineFeeds_append]
  omega

/-- Going on after `u` to read `v` reads both. -/
theorem reach_bind {f : Cursor → Except Fault Cursor}
    (hf : lineFeeds u < maxLine → f (after source u) = reach source (u ++ v)) :
    reach source u >>= f = reach source (u ++ v) := by
  by_cases hu : lineFeeds u < maxLine
  · rw [reach_of_lt hu, Fault.ok_bind]
    exact hf hu
  · have hle : maxLine ≤ lineFeeds u := Nat.not_lt.1 hu
    rw [reach_of_le hle, reach_append_of_le hle, Fault.error_bind]

/-- Going on after `u` to draw something from the text `v` draws it after both. -/
theorem reach_bind_map {α : Type} {f : Cursor → Except Fault α} {g : Cursor → α}
    (hf : lineFeeds u < maxLine → f (after source u) = (reach source (u ++ v)).map g) :
    reach source u >>= f = (reach source (u ++ v)).map g := by
  by_cases hu : lineFeeds u < maxLine
  · rw [reach_of_lt hu, Fault.ok_bind]
    exact hf hu
  · have hle : maxLine ≤ lineFeeds u := Nat.not_lt.1 hu
    rw [reach_of_le hle, reach_append_of_le hle, Fault.error_bind, Fault.map_error]

/-! ## Looking -/

/-- Behind the first part a cursor stands between the two. -/
theorem Parts.between (h : Parts source u r) : (after source u).Between u r :=
  ⟨h.toList_eq, rfl⟩

theorem isAtEnd_after (h : Parts source u r) : (after source u).isAtEnd = r.isEmpty := by
  unfold isAtEnd
  rw [after_source, after_position, ← byteSize_toList, h.toList_eq, byteSize_append]
  cases r with
  | nil => simp
  | cons x r =>
    have hx : 0 < x.utf8Size := Char.utf8Size_pos x
    rw [byteSize_cons, List.isEmpty_cons, decide_eq_false_iff_not]
    omega

/-- Wherever the cursor stands, each cut of the source is a place. -/
theorem place_after (h : Parts source u r) (v : List Char) :
    ∃ p, (after source v).place (byteSize u) = .ok p ∧
      p.Splits (String.ofList u) (String.ofList r) :=
  exists_place (c := after source v) h.toList_eq

theorem remaining_after (h : Parts source u r) :
    (after source u).remaining = .ok (String.ofList r) :=
  h.between.remaining_eq

theorem nth?_after (h : Parts source u r) (n : Nat) : (after source u).nth? n = .ok r[n]? :=
  h.between.nth?_eq n

/-- The peek behind the first part, the end mark past the last character. -/
theorem peek_after (h : Parts source u r) {n : Nat} (hn : byteSize u + n ≤ maxOffset) :
    (after source u).peek n = .ok (r[n]?.getD endMark) :=
  h.between.peek_eq hn

/-- The current character is the first that is left. -/
theorem current_after (h : Parts source u r) :
    (after source u).current = .ok (r.headD endMark) := by
  have hle := h.byteSize_add
  unfold current
  rw [peek_after h (by omega), List.headD_eq_head?_getD, List.head?_eq_getElem?]

/-- Before a character it is safe to look one character further. -/
theorem peek_one_after {x : Char} (h : Parts source u (x :: r)) :
    (after source u).peek 1 = .ok (r.headD endMark) := by
  have hle := h.byteSize_add
  have hx : 0 < x.utf8Size := Char.utf8Size_pos x
  rw [byteSize_cons] at hle
  rw [peek_after h (by omega), List.getElem?_cons_succ, List.headD_eq_head?_getD,
    List.head?_eq_getElem?]

/-- The slice from an earlier place is the text read since. -/
theorem sliceFrom_after (h : Parts source u (v ++ r)) :
    (after source (u ++ v)).sliceFrom (byteSize u) = .ok (String.ofList v) := by
  obtain ⟨p, hp, hsplits⟩ := place_after h (u ++ v)
  obtain ⟨q, hq, hsplits'⟩ := place_after h.read (u ++ v)
  unfold sliceFrom
  rw [after_position, hp, hq, Fault.ok_bind, Fault.ok_bind, if_pos (by simp)]
  rw [← extract_of_splits hsplits hsplits']

/-! ## Moving -/

/-- Moving over a character is within the limits as soon as the line limit is kept. -/
theorem pass_after {x : Char} (h : Parts source u (x :: r)) (hu : lineFeeds u < maxLine) :
    (after source u).pass x = reach source (u ++ [x]) := by
  have hle := h.byteSize_add
  rw [byteSize_cons] at hle
  have hoffset : ¬ maxOffset < (after source u).position + x.utf8Size := by
    rw [after_position]
    omega
  have hsize : byteSize (u ++ [x]) = byteSize u + x.utf8Size := by simp
  unfold pass
  rw [if_neg hoffset]
  -- Only a line feed moves the line on, and the line is one more than the line feeds read.
  by_cases hx : x = '\n'
  · have hlines : lineFeeds (u ++ [x]) = lineFeeds u + 1 := by simp [hx, lineFeeds_cons]
    have hafter : after source (u ++ [x]) =
        ⟨source, byteSize u + x.utf8Size, 1 + lineFeeds u + 1⟩ := by
      rw [after, hsize, hlines, Nat.add_assoc]
    rw [if_pos hx, after_line]
    by_cases hlt : 1 + lineFeeds u < maxLine
    · rw [if_pos hlt, reach_of_lt (by omega), hafter]
      rfl
    · rw [if_neg hlt, reach_of_le (by omega)]
  · have hlines : lineFeeds (u ++ [x]) = lineFeeds u := by simp [hx, lineFeeds_cons]
    have hafter : after source (u ++ [x]) = ⟨source, byteSize u + x.utf8Size, 1 + lineFeeds u⟩ := by
      rw [after, hsize, hlines]
    rw [if_neg hx, reach_of_lt (by rw [hlines]; exact hu), hafter]
    rfl

/-- One step forward reads the first character that is left. -/
theorem advance_after {x : Char} (h : Parts source u (x :: r)) (hu : lineFeeds u < maxLine) :
    (after source u).advance = (reach source (u ++ [x])).map fun c => (x, c) := by
  unfold advance
  rw [nth?_after h, Fault.ok_bind, ← pass_after h hu]
  rfl

theorem matchChar_after_nil (h : Parts source u []) (x : Char) :
    (after source u).matchChar x = .ok (false, after source u) := by
  unfold matchChar
  rw [isAtEnd_after h]
  rfl

/-- A character that matches is read, another one is left. -/
theorem matchChar_after {x y : Char} (h : Parts source u (x :: r)) (hu : lineFeeds u < maxLine) :
    (after source u).matchChar y =
      if x = y then (reach source (u ++ [x])).map fun c => (true, c)
      else .ok (false, after source u) := by
  unfold matchChar
  rw [isAtEnd_after h, current_after h, Fault.ok_bind, advance_after h hu]
  by_cases hxy : x = y
  · cases hr : reach source (u ++ [x]) <;> simp [hxy]
  · simp [hxy]
    rfl

end Lexis.Cursor

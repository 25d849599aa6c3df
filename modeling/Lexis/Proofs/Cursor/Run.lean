/-
  Lexis.Proofs.Cursor.Run

  What the loops of a cursor read: the longest run of a class, and all up to the next mark.
-/

import Lexis.Cursor.Skip
import Lexis.Proofs.Cursor.After

namespace Lexis.Cursor

open Lexis.Text

/-! ## One round of a loop -/

/-- One round of the loop over a class of characters. -/
theorem skipWhile_eq (p : Char → Bool) (hp : p endMark = false) (c : Cursor) :
    c.skipWhile p hp = c.current >>= fun x =>
      if p x then c.advance >>= fun q => q.2.skipWhile p hp else .ok c := by
  rw [skipWhile]
  split
  next hx =>
    rw [hx]
    rfl
  next x hx =>
    conv_rhs => rw [hx, Fault.ok_bind]
    split
    · split
      next hd =>
        rw [hd]
        rfl
      next hd =>
        conv_rhs => rw [hd, Fault.ok_bind]
    · rfl

/-- One round of the loop up to a character. -/
theorem skipUntil_eq (x : Char) (c : Cursor) :
    c.skipUntil x =
      if c.isAtEnd then .ok c
      else c.current >>= fun y =>
        if y = x then .ok c else c.advance >>= fun q => q.2.skipUntil x := by
  rw [skipUntil]
  split
  · rfl
  · split
    next hy => rw [hy, Fault.error_bind]
    next y hy =>
      rw [hy, Fault.ok_bind]
      split
      · rfl
      · split
        next hd =>
          rw [hd]
          rfl
        next hd =>
          conv_rhs => rw [hd, Fault.ok_bind]

/-! ## A whole run -/

variable {source : String} {u r : List Char}

/-- Reading one character and going on reads what both read. -/
theorem advance_bind_after {x : Char} {v : List Char} {f : Cursor → Except Fault Cursor}
    (h : Parts source u (x :: r)) (hu : lineFeeds u < maxLine)
    (hf : lineFeeds (u ++ [x]) < maxLine →
      f (after source (u ++ [x])) = reach source (u ++ x :: v)) :
    ((after source u).advance >>= fun q => f q.2) = reach source (u ++ x :: v) := by
  rw [advance_after h hu, Fault.map_bind, List.append_cons u x v]
  apply reach_bind
  intro hlt
  rw [hf hlt, List.append_cons u x v]

/-- The loop over a class reads the longest run of it, by induction on what is left. -/
theorem skipWhile_after {p : Char → Bool} (hp : p endMark = false) (h : Parts source u r)
    (hu : lineFeeds u < maxLine) :
    (after source u).skipWhile p hp = reach source (u ++ r.takeWhile p) := by
  -- The end mark is not of the class, so the loop ends at the end of the text.
  induction r generalizing u with
  | nil =>
    rw [skipWhile_eq, current_after h, Fault.ok_bind, List.headD_nil, hp]
    simp [reach_of_lt hu]
  | cons x r ih =>
    rw [skipWhile_eq, current_after h, Fault.ok_bind, List.headD_cons]
    by_cases hx : p x
    · rw [if_pos hx, List.takeWhile_cons_of_pos hx]
      apply advance_bind_after h hu
      intro hlt
      rw [ih (h.read (v := [x])) hlt, ← List.append_cons]
    · rw [if_neg hx, List.takeWhile_cons_of_neg hx, List.append_nil, reach_of_lt hu]

/-- The loop up to a character reads all before it, by induction on what is left. -/
theorem skipUntil_after (x : Char) (h : Parts source u r) (hu : lineFeeds u < maxLine) :
    (after source u).skipUntil x = reach source (u ++ r.takeWhile (· ≠ x)) := by
  -- The end is asked for first, as the end mark might be the character looked for.
  induction r generalizing u with
  | nil =>
    rw [skipUntil_eq, isAtEnd_after h]
    simp [reach_of_lt hu]
  | cons y r ih =>
    rw [skipUntil_eq, isAtEnd_after h, current_after h, Fault.ok_bind, List.headD_cons]
    by_cases hy : y = x
    · rw [if_neg (by simp), if_pos hy, List.takeWhile_cons_of_neg (by simpa using hy),
        List.append_nil, reach_of_lt hu]
    · rw [if_neg (by simp), if_neg hy, List.takeWhile_cons_of_pos (by simpa using hy)]
      apply advance_bind_after h hu
      intro hlt
      rw [ih (h.read (v := [y])) hlt, ← List.append_cons]

end Lexis.Cursor

/-
  Lexis.Proofs.Scan.Trivia

  The trivia that a text starts with, as a function of the text.

  `leading` goes through the text once and remembers only whether it is inside a comment;
  `skipTrivia_after` says that this is what the loop over blanks and comments reads.
-/

import Lexis.Proofs.Cursor.Run
import Lexis.Scan.Trivia

namespace Lexis

namespace Trivia

open Lexis.Text

/-- The trivia that a text starts with; `inComment` says that the text continues a comment. -/
def leading (inComment : Bool) : List Char → List Char
  | [] => []
  | c :: cs =>
    if inComment then c :: leading (c ≠ '\n') cs
    else if isBlank c then c :: leading false cs
    else if c = '/' ∧ cs.head? = some '/' then c :: leading true cs
    else []

/-- Trivia are a beginning of the text. -/
theorem isPrefix_leading (inComment : Bool) (cs : List Char) : leading inComment cs <+: cs := by
  induction cs generalizing inComment with
  | nil => exact List.prefix_refl _
  | cons c cs ih =>
    rw [leading]
    split
    · exact List.prefix_cons_inj _ |>.2 (ih _)
    · split
      · exact List.prefix_cons_inj _ |>.2 (ih _)
      · split
        · exact List.prefix_cons_inj _ |>.2 (ih _)
        · exact List.nil_prefix

/-- What stands behind the leading trivia. -/
def rest (cs : List Char) : List Char :=
  cs.drop (leading false cs).length

theorem leading_append_rest (cs : List Char) : leading false cs ++ rest cs = cs := by
  conv_rhs => rw [← List.take_append_drop (leading false cs).length cs]
  rw [← List.prefix_iff_eq_take.1 (isPrefix_leading false cs), rest]

theorem leading_blank {c : Char} (hc : isBlank c = true) (cs : List Char) :
    leading false (c :: cs) = c :: leading false cs := by
  rw [leading, if_neg (by decide), if_pos hc]

/-- A comment goes on to the end of its line; what follows it is looked at afresh. -/
theorem leading_true (cs : List Char) :
    leading true cs = cs.takeWhile (· ≠ '\n') ++ leading false (cs.dropWhile (· ≠ '\n')) := by
  induction cs with
  | nil => rfl
  | cons c cs ih =>
    rw [leading, if_pos rfl]
    -- The line feed itself is a blank behind the comment.
    by_cases hc : c = '\n'
    · rw [List.takeWhile_cons_of_neg (by simpa using hc),
        List.dropWhile_cons_of_neg (by simpa using hc), List.nil_append,
        leading_blank (by rw [hc]; rfl)]
      simp [hc]
    · rw [List.takeWhile_cons_of_pos (by simpa using hc),
        List.dropWhile_cons_of_pos (by simpa using hc), List.cons_append, ← ih]
      simp [hc]

/-- A comment is trivia up to its line feed, and the trivia goes on behind. -/
theorem leading_comment (cs : List Char) :
    leading false ('/' :: '/' :: cs) =
      ('/' :: '/' :: cs).takeWhile (· ≠ '\n') ++
        leading false (('/' :: '/' :: cs).dropWhile (· ≠ '\n')) := by
  rw [← leading_true, leading, if_neg (by decide), if_neg (by decide), if_pos ⟨rfl, rfl⟩]
  simp [leading]

/-- A slash alone is no trivia. -/
theorem leading_of_slash {c : Char} {cs : List Char} (hc : isBlank c = false)
    (h : ¬ (c = '/' ∧ cs.head? = some '/')) : leading false (c :: cs) = [] := by
  rw [leading, if_neg (by decide), if_neg (by simp [hc]), if_neg h]

end Trivia

namespace Cursor

open Lexis.Text

/-- One round of the loop over trivia. -/
theorem skipTrivia_eq (c : Cursor) :
    c.skipTrivia = c.current >>= fun x =>
      if isBlank x then c.advance >>= fun q => q.2.skipTrivia
      else if x = '/' then
        c.peek 1 >>= fun y => if y = '/' then c.skipUntil '\n' >>= skipTrivia else .ok c
      else .ok c := by
  rw [skipTrivia]
  -- The loop of the program is written with its tests inside; each of them is asked once.
  split
  next hx =>
    rw [hx]
    rfl
  next x hx =>
    conv_rhs => rw [hx, Fault.ok_bind]
    split
    · split
      next hd =>
        rw [hd]
        rfl
      next hd =>
        conv_rhs => rw [hd, Fault.ok_bind]
    · split
      · split
        next hy => rw [hy, Fault.error_bind]
        next y hy =>
          rw [hy, Fault.ok_bind]
          split
          · split
            next hd =>
              rw [hd]
              rfl
            next hd =>
              conv_rhs => rw [hd, Fault.ok_bind]
          · rfl
      · rfl

variable {source : String} {u r : List Char}

/-- The loop stops before a character that is no blank and starts no comment. -/
theorem skipTrivia_after_stop {x : Char} (h : Parts source u (x :: r)) (hblank : ¬ isBlank x = true)
    (hslash : ¬ (x = '/' ∧ r.head? = some '/')) :
    (after source u).skipTrivia = .ok (after source u) := by
  rw [skipTrivia_eq, current_after h, Fault.ok_bind, List.headD_cons, if_neg hblank]
  by_cases hx : x = '/'
  · -- A lone slash: the next character is another, or the source ends and reads as NUL.
    have hr : r.headD endMark ≠ '/' := by
      intro heq
      cases r with
      | nil => exact absurd heq (by decide)
      | cons y r => exact hslash ⟨hx, by rw [← heq]; rfl⟩
    rw [if_pos hx, peek_one_after h, Fault.ok_bind, if_neg hr]
  · rw [if_neg hx]

/-- The loop over blanks and comments reads the leading trivia. -/
theorem skipTrivia_after (h : Parts source u r) (hu : lineFeeds u < maxLine) :
    (after source u).skipTrivia = reach source (u ++ Trivia.leading false r) := by
  -- A comment is read in one go, so the induction is on the length of the text and not on it.
  induction hn : r.length using Nat.strongRecOn generalizing u r with
  | ind n ih =>
    cases r with
    | nil =>
      rw [skipTrivia_eq, current_after h, Fault.ok_bind, List.headD_nil]
      rw [if_neg (by decide), if_neg (by decide), Trivia.leading, List.append_nil, reach_of_lt hu]
    | cons x r =>
      by_cases hblank : isBlank x
      · rw [skipTrivia_eq, current_after h, Fault.ok_bind, List.headD_cons]
        rw [if_pos hblank, Trivia.leading_blank hblank]
        apply advance_bind_after h hu
        intro hlt
        rw [ih r.length (by simp [← hn]) (h.read (v := [x])) hlt rfl, ← List.append_cons]
      · by_cases hslash : x = '/' ∧ r.head? = some '/'
        · obtain ⟨rfl, hhead⟩ := hslash
          obtain ⟨r, rfl⟩ := List.head?_eq_some_iff.1 hhead
          rw [skipTrivia_eq, current_after h, Fault.ok_bind, List.headD_cons, if_neg hblank]
          rw [if_pos rfl, peek_one_after h, Fault.ok_bind, List.headD_cons, if_pos rfl,
            skipUntil_after '\n' h hu, Trivia.leading_comment, ← List.append_assoc]
          apply reach_bind
          intro hlt
          -- The loop goes on behind the comment, on a shorter text.
          have hparts : Parts source (u ++ ('/' :: '/' :: r).takeWhile (· ≠ '\n'))
              (('/' :: '/' :: r).dropWhile (· ≠ '\n')) := by
            apply Parts.read
            rwa [List.takeWhile_append_dropWhile]
          have hshort : (('/' :: '/' :: r).dropWhile (· ≠ '\n')).length < n := by
            rw [← hn, List.dropWhile_cons_of_pos (by decide), List.length_cons]
            exact Nat.lt_succ_of_le (List.dropWhile_suffix _).length_le
          exact ih _ hshort hparts hlt rfl
        · rw [Trivia.leading_of_slash (by simpa using hblank) hslash, List.append_nil,
            reach_of_lt hu]
          exact skipTrivia_after_stop h hblank hslash

end Cursor

end Lexis

/-
  Lexis.Scan.Trivia

  What stands between tokens: blanks, and comments from `//` to the end of the line.

  A lone slash is no trivia. The line feed that ends a comment is a blank of its own.
-/

import Lexis.Cursor.Skip
import Lexis.Text.Classes

namespace Lexis.Cursor

/-- Reads the trivia that the cursor stands before. -/
def skipTrivia (c : Cursor) : Except Fault Cursor :=
  match hx : c.current with
  | .error fault => .error fault
  | .ok x =>
    if hblank : Text.isBlank x then
      match hd : c.advance with
      | .error fault => .error fault
      | .ok (_, d) =>
        have : d.left < c.left :=
          left_of_advance (isAtEnd_of_current hx (by rintro rfl; cases hblank)) hd
        skipTrivia d
    else if hslash : x = '/' then
      match c.peek 1 with
      | .error fault => .error fault
      | .ok y =>
        if y = '/' then
          match hd : c.skipUntil '\n' with
          | .error fault => .error fault
          | .ok d =>
            -- The comment takes at least the slash that the cursor stands before.
            have : d.left < c.left :=
              left_of_skipUntil (hslash ▸ hx)
                (isAtEnd_of_current (hslash ▸ hx) (by decide)) (by decide) hd
            skipTrivia d
        else .ok c
    else .ok c
termination_by c.left

theorem reaches_of_skipTrivia {c d : Cursor} (h : c.skipTrivia = .ok d) : Reaches c d := by
  fun_induction skipTrivia c with
  | case1 => cases h
  | case2 => cases h
  | case3 c x hx hblank y e he hlt ih => exact (reaches_of_advance he).trans (ih h)
  | case4 => cases h
  | case5 => cases h
  | case6 c e he hlt hx hblank hpeek ih => exact (reaches_of_skipUntil he).trans (ih h)
  | case7 =>
    cases h
    exact Reaches.refl _
  | case8 =>
    cases h
    exact Reaches.refl _

end Lexis.Cursor

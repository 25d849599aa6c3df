/-
  Lexis.Proofs.Scan.Bookmark

  A scanner told as an index into a list of tokens.

  A bookmark stands in a fixed list and every step is a lookup in that list: nothing is scanned.
  The list is meant to be all tokens of a source, the end token last; an index behind the end token
  says that it has been drawn already.
-/

import Lexis.Proofs.Scan.Item
import Lexis.Scan.Session

namespace Lexis

/-- An index into a list of tokens, and the one that was kept last. -/
structure Bookmark where
  index : Nat
  saved : Nat

namespace Bookmark

open Scanner (Step Answer)

/-- The tokens from an index on, without the end token. -/
def left (ts : List Token) (i : Nat) : List Token :=
  (ts.drop i).filter fun t => !t.isEof

/-- The token at an index, and the last one behind the end. -/
def tokenAt (ts : List Token) (i : Nat) : Token :=
  ts[i]?.getD (ts.getLastD default)

/-- The index `k` tokens further on; past the end if not that many are left before it. -/
def ahead (ts : List Token) (i k : Nat) : Nat :=
  if k ≤ (left ts i).length then i + k else ts.length

/-- The end of the span before an index. -/
def offset (ts : List Token) : Nat → Nat
  | 0 => 0
  | i + 1 => (tokenAt ts i).span.stop

/-- The answer to a step, and the bookmark after it. -/
def step (source : String) (ts : List Token) (b : Bookmark) : Step → Answer × Bookmark
  | .scan => (.token (tokenAt ts b.index), { b with index := min (b.index + 1) ts.length })
  | .next =>
    let t := tokenAt ts b.index
    (.token? (if t.isEof then none else some t), { b with index := min (b.index + 1) ts.length })
  | .nth n => (.token? (left ts b.index)[n]?, { b with index := ahead ts b.index (n + 1) })
  | .take n => (.tokens ((left ts b.index).take n), { b with index := ahead ts b.index n })
  | .collect => (.tokens (left ts b.index), { b with index := ts.length })
  | .count => (.number (left ts b.index).length, { b with index := ts.length })
  | .last => (.token? (left ts b.index).getLast?, { b with index := ts.length })
  | .find kind =>
    (.token? ((left ts b.index).find? (·.kind = kind)),
      { b with index := ahead ts b.index ((left ts b.index).findIdx (·.kind = kind) + 1) })
  | .source => (.text source, b)
  | .save => (.done, { b with saved := b.index })
  | .restore => (.done, { b with index := b.saved })

/-- The answers to steps in order, with the bookmark after each. -/
def run (source : String) (ts : List Token) (b : Bookmark) : List Step → List (Answer × Bookmark)
  | [] => []
  | x :: xs => b.step source ts x :: run source ts (b.step source ts x).2 xs

/-! ## Indices -/

variable {ts : List Token} {i : Nat}

theorem left_of_length_le (hi : ts.length ≤ i) : left ts i = [] := by
  rw [left, List.drop_of_length_le hi, List.filter_nil]

theorem left_of_isEof (hi : i < ts.length) (h : ts[i].isEof = true) :
    left ts i = left ts (i + 1) := by
  rw [left, List.drop_eq_getElem_cons hi, List.filter_cons_of_neg (by simp [h]), left]

theorem left_of_not_isEof (hi : i < ts.length) (h : ts[i].isEof = false) :
    left ts i = ts[i] :: left ts (i + 1) := by
  rw [left, List.drop_eq_getElem_cons hi, List.filter_cons_of_pos (by simp [h]), left]

theorem tokenAt_of_lt (hi : i < ts.length) : tokenAt ts i = ts[i] := by
  rw [tokenAt, List.getElem?_eq_getElem hi, Option.getD_some]

/-- Behind the end it is the last token that is found again. -/
theorem tokenAt_of_length_le (hi : ts.length ≤ i) : tokenAt ts i = tokenAt ts (ts.length - 1) := by
  rw [tokenAt, List.getElem?_eq_none hi, Option.getD_none, tokenAt, ← List.getLast?_eq_getElem?,
    List.getLastD_eq_getLast?]
  cases ts.getLast? <;> rfl

@[simp] theorem ahead_zero (ts : List Token) (i : Nat) : ahead ts i 0 = i :=
  if_pos (Nat.zero_le _)

theorem ahead_of_left_eq_nil (h : left ts i = []) (k : Nat) : ahead ts i (k + 1) = ts.length := by
  rw [ahead, h, if_neg (by simp)]

theorem ahead_succ {t : Token} (h : left ts i = t :: left ts (i + 1)) (k : Nat) :
    ahead ts i (k + 1) = ahead ts (i + 1) k := by
  rw [ahead, ahead, h, List.length_cons]
  by_cases hk : k ≤ (left ts (i + 1)).length
  · rw [if_pos (Nat.succ_le_succ hk), if_pos hk]
    omega
  · rw [if_neg (by omega), if_neg hk]

theorem length_left_le (ts : List Token) (i : Nat) : (left ts i).length ≤ ts.length - i := by
  rw [← List.length_drop]
  exact List.length_filter_le _ _

theorem le_ahead (hi : i ≤ ts.length) (k : Nat) : i ≤ ahead ts i k := by
  unfold ahead
  split
  · exact Nat.le_add_right i k
  · exact hi

theorem ahead_le (hi : i ≤ ts.length) (k : Nat) : ahead ts i k ≤ ts.length := by
  have hle := length_left_le ts i
  unfold ahead
  split
  · omega
  · exact Nat.le_refl _

end Bookmark

end Lexis

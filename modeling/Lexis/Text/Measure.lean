/-
  Lexis.Text.Measure

  Texts as lists of characters, measured and cut by the bytes of their UTF-8 form.

  An offset counts bytes, so it may fall inside a character; such an offset, like one past the
  end, names no place in the text. `dropBytes?` and `takeBytes?` cut at an offset when it is a
  place, and `slice?` cuts between two of them. The lemmas say that every place is the size of
  what stands before it.
-/

namespace Lexis.Text

/-! ## Sizes -/

/-- Number of bytes of the UTF-8 form of a text. -/
def byteSize : List Char → Nat
  | [] => 0
  | c :: cs => c.utf8Size + byteSize cs

/-- Number of line feeds of a text. -/
def lineFeeds (cs : List Char) : Nat :=
  cs.count '\n'

@[simp] theorem byteSize_nil : byteSize [] = 0 := rfl

@[simp] theorem byteSize_cons (c : Char) (cs : List Char) :
    byteSize (c :: cs) = c.utf8Size + byteSize cs := rfl

@[simp] theorem byteSize_append (a b : List Char) :
    byteSize (a ++ b) = byteSize a + byteSize b := by
  induction a with
  | nil => simp
  | cons c a ih => simp [ih, Nat.add_assoc]

@[simp] theorem lineFeeds_nil : lineFeeds [] = 0 := rfl

theorem lineFeeds_cons (c : Char) (cs : List Char) :
    lineFeeds (c :: cs) = lineFeeds cs + if c = '\n' then 1 else 0 := by
  simp [lineFeeds, List.count_cons]

@[simp] theorem lineFeeds_append (a b : List Char) :
    lineFeeds (a ++ b) = lineFeeds a + lineFeeds b := by
  simp [lineFeeds]

/-! ## Cutting -/

/-- The text from byte offset `n` on. -/
def dropBytes? : List Char → Nat → Option (List Char)
  | cs, 0 => some cs
  | [], _ + 1 => none
  | c :: cs, n + 1 => if c.utf8Size ≤ n + 1 then dropBytes? cs (n + 1 - c.utf8Size) else none

/-- The first `n` bytes of a text. -/
def takeBytes? : List Char → Nat → Option (List Char)
  | _, 0 => some []
  | [], _ + 1 => none
  | c :: cs, n + 1 =>
    if c.utf8Size ≤ n + 1 then (takeBytes? cs (n + 1 - c.utf8Size)).map (c :: ·) else none

/-- The text from byte offset `start` to byte offset `stop`. -/
def slice? (cs : List Char) (start stop : Nat) : Option (List Char) :=
  if start ≤ stop then (dropBytes? cs start).bind (takeBytes? · (stop - start)) else none

@[simp] theorem dropBytes?_zero (cs : List Char) : dropBytes? cs 0 = some cs := by
  cases cs <;> rfl

@[simp] theorem takeBytes?_zero (cs : List Char) : takeBytes? cs 0 = some [] := by
  cases cs <;> rfl

theorem dropBytes?_append (a b : List Char) : dropBytes? (a ++ b) (byteSize a) = some b := by
  induction a with
  | nil => simp
  | cons c a ih =>
    obtain ⟨k, hk⟩ : ∃ k, c.utf8Size + byteSize a = k + 1 :=
      ⟨_, (Nat.succ_pred_eq_of_pos (Nat.add_pos_left c.utf8Size_pos _)).symm⟩
    simp only [List.cons_append, byteSize_cons, hk, dropBytes?]
    rw [if_pos (by omega), show k + 1 - c.utf8Size = byteSize a by omega, ih]

theorem takeBytes?_append (a b : List Char) : takeBytes? (a ++ b) (byteSize a) = some a := by
  induction a with
  | nil => simp
  | cons c a ih =>
    obtain ⟨k, hk⟩ : ∃ k, c.utf8Size + byteSize a = k + 1 :=
      ⟨_, (Nat.succ_pred_eq_of_pos (Nat.add_pos_left c.utf8Size_pos _)).symm⟩
    simp only [List.cons_append, byteSize_cons, hk, takeBytes?]
    rw [if_pos (by omega), show k + 1 - c.utf8Size = byteSize a by omega, ih, Option.map_some]

/-- The piece `b` of `a ++ b ++ d` lies between the size of `a` and that of `a ++ b`. -/
theorem slice?_append (a b d : List Char) :
    slice? (a ++ (b ++ d)) (byteSize a) (byteSize a + byteSize b) = some b := by
  simp [slice?, dropBytes?_append, takeBytes?_append]

/-- Bytes that can be dropped are a beginning of the text. -/
theorem eq_append_of_dropBytes? {cs r : List Char} {n : Nat} (h : dropBytes? cs n = some r) :
    ∃ u, cs = u ++ r ∧ byteSize u = n := by
  fun_induction dropBytes? cs n with
  | case1 => exact ⟨[], by simp_all⟩
  | case2 => simp at h
  | case3 c cs n hc ih =>
    obtain ⟨u, rfl, hu⟩ := ih h
    exact ⟨c :: u, rfl, by simp [hu]; omega⟩
  | case4 => simp at h

end Lexis.Text

/-
  Lexis.Cursor.Skip

  Runs of characters read in one go.

  Both loops end because each round moves the cursor over a character that has not been read:
  `skipWhile` because the end mark is never in its class, `skipUntil` because it asks for the end
  first. `left` is what they use up.
-/

import Lexis.Cursor.Basic

namespace Lexis.Cursor

/-- Number of bytes that have not been read. -/
def left (c : Cursor) : Nat :=
  c.source.utf8ByteSize - c.position

/-- Reading on from `c` can lead to `d`. -/
structure Reaches (c d : Cursor) : Prop where
  source_eq : d.source = c.source
  position_le : c.position ≤ d.position

namespace Reaches

theorem refl (c : Cursor) : Reaches c c :=
  ⟨rfl, Nat.le_refl _⟩

theorem trans {c d e : Cursor} (h₁ : Reaches c d) (h₂ : Reaches d e) : Reaches c e :=
  ⟨h₂.source_eq.trans h₁.source_eq, Nat.le_trans h₁.position_le h₂.position_le⟩

/-- A cursor that is reached has no more of the text left: the measure of every loop. -/
theorem left_le {c d : Cursor} (h : Reaches c d) : d.left ≤ c.left := by
  unfold left
  rw [h.source_eq]
  exact Nat.sub_le_sub_left h.position_le _

end Reaches

/-! ## One character -/

/-- Passing a character moves by its bytes and keeps the source. -/
theorem position_of_pass {c d : Cursor} {x : Char} (h : c.pass x = .ok d) :
    d.source = c.source ∧ d.position = c.position + x.utf8Size := by
  unfold pass at h
  split at h
  · cases h
  · split at h
    · split at h
      · cases h
        exact ⟨rfl, rfl⟩
      · cases h
    · cases h
      exact ⟨rfl, rfl⟩

/-- A place that is found is the offset that was looked for. -/
theorem byteIdx_of_place {c : Cursor} {offset : Nat} {p : c.source.Pos}
    (h : c.place offset = .ok p) : p.offset.byteIdx = offset := by
  unfold place at h
  split at h
  · cases h
    rfl
  · cases h

/-- A place where no character stands is the end of the source. -/
theorem position_of_nth?_eq_none {c : Cursor} (h : c.nth? 0 = .ok none) :
    c.position = c.source.utf8ByteSize := by
  obtain ⟨p, hp, hnone⟩ := Fault.map_eq_ok.1 h
  have hend : p = c.source.endPos := String.Pos.get?_eq_none_iff.1 hnone
  rw [← byteIdx_of_place hp, hend]
  rfl

/-- A place where a character stands comes before the end of the source. -/
theorem position_of_nth?_eq_some {c : Cursor} {x : Char} (h : c.nth? 0 = .ok (some x)) :
    c.position < c.source.utf8ByteSize := by
  obtain ⟨p, hp, hsome⟩ := Fault.map_eq_ok.1 h
  have hend : p ≠ c.source.endPos := by
    intro heq
    rw [Text.nth?, String.Pos.get?_eq_none heq] at hsome
    cases hsome
  rw [← byteIdx_of_place hp]
  exact p.byteIdx_lt_utf8ByteSize hend

/-- One step forward reaches a cursor of the same source. -/
theorem reaches_of_advance {c d : Cursor} {x : Char} (h : c.advance = .ok (x, d)) :
    Reaches c d := by
  obtain ⟨y?, -, h⟩ := Fault.bind_eq_ok.1 h
  cases y? with
  | none =>
    cases h
    exact Reaches.refl c
  | some y =>
    obtain ⟨d', hd, h⟩ := Fault.map_eq_ok.1 h
    cases h
    have hpos := position_of_pass hd
    exact ⟨hpos.1, by omega⟩

/-- Before the end there is a character to read. -/
theorem left_of_advance {c d : Cursor} {x : Char} (hend : c.isAtEnd = false)
    (h : c.advance = .ok (x, d)) : d.left < c.left := by
  have hlt : c.position < c.source.utf8ByteSize := by simpa [isAtEnd] using hend
  obtain ⟨y?, hy, h⟩ := Fault.bind_eq_ok.1 h
  cases y? with
  | none =>
    have := position_of_nth?_eq_none hy
    omega
  | some y =>
    obtain ⟨d', hd, h⟩ := Fault.map_eq_ok.1 h
    cases h
    obtain ⟨hsource, hpos⟩ := position_of_pass hd
    have hsize : 0 < x.utf8Size := Char.utf8Size_pos x
    unfold left
    rw [hsource, hpos]
    omega

/-- At the end the next character reads as the end mark. -/
theorem current_of_isAtEnd {c : Cursor} {x : Char} (hend : c.isAtEnd = true)
    (h : c.current = .ok x) : x = endMark := by
  have hle : c.source.utf8ByteSize ≤ c.position := by simpa [isAtEnd] using hend
  have hwindow : Text.asciiAt? c.source c.position 0 = none := by
    simp [Text.asciiAt?, Nat.not_lt.2 hle]
  unfold current peek at h
  split at h
  · cases h
  · rw [hwindow] at h
    obtain ⟨y?, hy, rfl⟩ := Fault.map_eq_ok.1 h
    cases y? with
    | none => rfl
    | some y => exact absurd (position_of_nth?_eq_some hy) (Nat.not_lt.2 hle)

/-- Where the current character is not the end mark, the cursor is not at the end. -/
theorem isAtEnd_of_current {c : Cursor} {x : Char} (h : c.current = .ok x) (hx : x ≠ endMark) :
    c.isAtEnd = false := by
  cases hend : c.isAtEnd with
  | false => rfl
  | true => exact absurd (current_of_isAtEnd hend h) hx

/-! ## Runs -/

/-- Reads on as long as the next character is of a class, which the end mark must not be. -/
def skipWhile (p : Char → Bool) (hp : p endMark = false) (c : Cursor) : Except Fault Cursor :=
  match hx : c.current with
  | .error fault => .error fault
  | .ok x =>
    if hpx : p x then
      match hd : c.advance with
      | .error fault => .error fault
      | .ok (_, d) =>
        have : d.left < c.left :=
          left_of_advance (isAtEnd_of_current hx (by rintro rfl; simp [hp] at hpx)) hd
        skipWhile p hp d
    else .ok c
termination_by c.left

/-- Reads on up to the next `x` or the end. -/
def skipUntil (x : Char) (c : Cursor) : Except Fault Cursor :=
  if hend : c.isAtEnd then .ok c
  else
    match c.current with
    | .error fault => .error fault
    | .ok y =>
      if y = x then .ok c
      else
        match hd : c.advance with
        | .error fault => .error fault
        | .ok (_, d) =>
          have : d.left < c.left := left_of_advance (by simpa using hend) hd
          skipUntil x d
termination_by c.left

/-- A loop up to a character only moves forward. -/
theorem reaches_of_skipUntil {c d : Cursor} {x : Char} (h : c.skipUntil x = .ok d) :
    Reaches c d := by
  fun_induction skipUntil x c with
  | case1 =>
    cases h
    exact Reaches.refl _
  | case2 => cases h
  | case3 =>
    cases h
    exact Reaches.refl _
  | case4 => cases h
  | case5 c hend y hy hyx z e he hlt ih => exact (reaches_of_advance he).trans (ih h)

theorem reaches_of_skipWhile {p : Char → Bool} {hp : p endMark = false} {c d : Cursor}
    (h : c.skipWhile p hp = .ok d) : Reaches c d := by
  fun_induction skipWhile p hp c with
  | case1 => cases h
  | case2 => cases h
  | case3 c x hx hpx y e he hlt ih => exact (reaches_of_advance he).trans (ih h)
  | case4 =>
    cases h
    exact Reaches.refl _

/-- A run up to `x` moves over the character it starts at, unless that is `x`. -/
theorem left_of_skipUntil {c d : Cursor} {x y : Char} (hy : c.current = .ok y)
    (hend : c.isAtEnd = false) (hyx : y ≠ x) (h : c.skipUntil x = .ok d) : d.left < c.left := by
  rw [skipUntil] at h
  simp only [hend, hy, Bool.false_eq_true, dite_false, hyx, if_false] at h
  split at h
  · cases h
  next z e he => exact Nat.lt_of_le_of_lt (reaches_of_skipUntil h).left_le (left_of_advance hend he)

end Lexis.Cursor

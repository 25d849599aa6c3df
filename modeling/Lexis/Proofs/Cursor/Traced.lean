/-
  Lexis.Proofs.Cursor.Traced

  Reading with a record of what is read.

  A traced computation yields what the computation yields that it traces, and lists the characters
  over which a cursor was moved on the way. A loop is given by its round, which leaves the loop or
  goes on with another round. That a round which goes on has moved the cursor is part of being a
  loop; it is the reason why there are only so many rounds.
-/

import Lexis.Proofs.Cursor.Run

namespace Lexis

/-- A character that a cursor was moved over, and its offset. -/
structure Read where
  offset : Nat
  char : Char
  deriving DecidableEq

/-- A result and the characters that were read for it, in order. -/
@[ext] structure Traced (α : Type) where
  reads : List Read
  result : Except Fault α

namespace Traced

variable {α β : Type}

/-- What is found without moving. -/
def look (x : Except Fault α) : Traced α :=
  ⟨[], x⟩

/-- What is read for a fault is read, but nothing more. -/
def andThen (x : Traced α) (f : α → Traced β) : Traced β :=
  match x.result with
  | .ok a => ⟨x.reads ++ (f a).reads, (f a).result⟩
  | .error fault => ⟨x.reads, .error fault⟩

/-- One computation after the other: what both have read, in this order, and the limit that the
    first to pass one passes. -/
instance : Monad Traced where
  pure a := look (.ok a)
  bind := andThen

@[simp] theorem result_look (x : Except Fault α) : (look x).result = x := rfl

@[simp] theorem result_pure (a : α) : (pure a : Traced α).result = .ok a := rfl

@[simp] theorem result_bind (x : Traced α) (f : α → Traced β) :
    (x >>= f).result = x.result >>= fun a => (f a).result := by
  show (x.andThen f).result = _
  unfold andThen
  cases x.result <;> rfl

/-- The reads of a composed computation, one part behind the other. -/
theorem reads_bind {x : Traced α} {a : α} (h : x.result = .ok a) (f : α → Traced β) :
    (x >>= f).reads = x.reads ++ (f a).reads := by
  show (x.andThen f).reads = _
  unfold andThen
  rw [h]

@[simp] theorem result_ite (p : Prop) [Decidable p] (x y : Traced α) :
    (if p then x else y).result = if p then x.result else y.result :=
  apply_ite result p x y

/-! ## What is yielded -/

/-- Of whatever is yielded, and of what is read for it, `P` holds. -/
def Yields (x : Traced α) (P : List Read → α → Prop) : Prop :=
  ∀ a, x.result = .ok a → P x.reads a

variable {x : Traced α} {f : α → Traced β} {P : List Read → α → Prop} {Q : List Read → β → Prop}

theorem yields_look (x : Except Fault α) : (look x).Yields fun reads a => reads = [] ∧ x = .ok a :=
  fun _ h => ⟨rfl, h⟩

theorem yields_pure {a : α} (h : P [] a) : (pure a : Traced α).Yields P := by
  rintro _ ⟨⟩
  exact h

/-- What the parts yield is composed along the bind, the reads joined. -/
theorem Yields.bind (hx : x.Yields P)
    (hf : ∀ reads a, P reads a → (f a).Yields fun more b => Q (reads ++ more) b) :
    (x >>= f).Yields Q := by
  intro b hb
  rw [result_bind] at hb
  obtain ⟨a, ha, hb⟩ := Fault.bind_eq_ok.1 hb
  rw [reads_bind ha]
  exact hf _ a (hx a ha) b hb

/-- Looking around adds nothing to what is read. -/
theorem Yields.look_bind {y : Except Fault α}
    (hf : ∀ a, y = .ok a → (f a).Yields Q) : (look y >>= f).Yields Q := by
  refine (yields_look y).bind ?_
  rintro _ a ⟨rfl, ha⟩
  exact hf a ha

theorem Yields.ite {p : Prop} [Decidable p] {y : Traced α} (hx : p → x.Yields P)
    (hy : ¬ p → y.Yields P) : (if p then x else y).Yields P := by
  by_cases hp : p
  · rw [if_pos hp]
    exact hx hp
  · rw [if_neg hp]
    exact hy hp

end Traced

/-! ## Moving a cursor -/

namespace Cursor

/-- Reads lead from `c` to `d`, each of them at a character that had not been read. -/
inductive Moves : Cursor → List Read → Cursor → Prop where
  | refl (c : Cursor) : Moves c [] c
  | step {c d e : Cursor} {x : Char} {reads : List Read} (hend : c.isAtEnd = false)
      (hd : c.advance = .ok (x, d)) (h : Moves d reads e) : Moves c (⟨c.position, x⟩ :: reads) e

namespace Moves

variable {c d e : Cursor} {reads more : List Read}

/-- Moves compose, their reads joined. -/
theorem trans (h₁ : Moves c reads d) (h₂ : Moves d more e) : Moves c (reads ++ more) e := by
  induction h₁ with
  | refl => exact h₂
  | step hend hd _ ih => exact step hend hd (ih h₂)

theorem left_le (h : Moves c reads d) : d.left ≤ c.left := by
  induction h with
  | refl => exact Nat.le_refl _
  | step hend hd _ ih => exact Nat.le_trans ih (Nat.le_of_lt (left_of_advance hend hd))

theorem left_lt (h : Moves c reads d) (hreads : reads ≠ []) : d.left < c.left := by
  cases h with
  | refl => exact absurd rfl hreads
  | step hend hd h => exact Nat.lt_of_le_of_lt h.left_le (left_of_advance hend hd)

end Moves

end Cursor

namespace Traced

open Cursor

/-- Moves a cursor over the next character; at the end there is none. -/
def advance (c : Cursor) : Traced (Char × Cursor) :=
  ⟨match c.advance with
    | .ok (x, _) => if c.isAtEnd then [] else [⟨c.position, x⟩]
    | .error _ => [], c.advance⟩

@[simp] theorem result_advance (c : Cursor) : (advance c).result = c.advance := rfl

/-- Where the end has been reached there is nothing to move over. -/
theorem advance_of_isAtEnd {c d : Cursor} {x : Char} (hend : c.isAtEnd = true)
    (h : c.advance = .ok (x, d)) : d = c := by
  obtain ⟨y?, hy, h⟩ := Fault.bind_eq_ok.1 h
  cases y? with
  | none =>
    cases h
    rfl
  | some y =>
    have hlt := position_of_nth?_eq_some hy
    have hle : c.source.utf8ByteSize ≤ c.position := by simpa [isAtEnd] using hend
    omega

/-- A step forward moves by what it reads, which is something unless at the end. -/
theorem yields_advance (c : Cursor) :
    (advance c).Yields fun reads q => c.Moves reads q.2 ∧ (c.isAtEnd = false → reads ≠ []) := by
  rintro ⟨x, d⟩ hd
  rw [result_advance] at hd
  unfold advance
  rw [hd]
  cases hend : c.isAtEnd with
  | true =>
    rw [advance_of_isAtEnd hend hd]
    exact ⟨Moves.refl c, by simp⟩
  | false => exact ⟨Moves.step hend hd (Moves.refl d), by simp⟩

/-- Reads the next character if it is `x`, and tells whether it was. -/
def matchChar (c : Cursor) (x : Char) : Traced (Bool × Cursor) :=
  if c.isAtEnd then pure (false, c)
  else do
    let y ← look c.current
    if y = x then
      let q ← advance c
      pure (true, q.2)
    else pure (false, c)

@[simp] theorem result_matchChar (c : Cursor) (x : Char) :
    (matchChar c x).result = c.matchChar x := by
  unfold matchChar Cursor.matchChar
  by_cases hend : c.isAtEnd
  · rw [if_pos hend, if_pos hend]
    rfl
  · rw [if_neg hend, if_neg hend]
    simp
    rfl

/-- A match moves by what it reads. -/
theorem yields_matchChar (c : Cursor) (x : Char) :
    (matchChar c x).Yields fun reads q => c.Moves reads q.2 := by
  unfold matchChar
  refine Yields.ite (fun _ => yields_pure (Moves.refl c)) fun _ => Yields.look_bind fun y _ => ?_
  refine Yields.ite (fun _ => (yields_advance c).bind ?_) fun _ => yields_pure (Moves.refl c)
  rintro reads q ⟨hmoves, -⟩
  apply yields_pure
  rw [List.append_nil]
  exact hmoves

end Traced

/-! ## Loops -/

/-- What comes of a round of a loop. -/
inductive Round (σ β : Type) where
  | again (s : σ)
  | leave (b : β)

namespace Round

variable {σ β γ : Type}

/-- Goes on with `f` or leaves with `g`. -/
def elim (f : σ → γ) (g : β → γ) : Round σ β → γ
  | again s => f s
  | leave b => g b

/-- A round that goes on has moved over some character. -/
def Moved (start : σ → Cursor) (stop : β → Cursor) (c : Cursor) (reads : List Read) :
    Round σ β → Prop
  | again s => c.Moves reads (start s) ∧ reads ≠ []
  | leave b => c.Moves reads (stop b)

end Round

/-- A loop with states `σ`, left with some `β`. -/
structure Loop (σ β : Type) where
  round : σ → Traced (Round σ β)
  /-- Where a round starts. -/
  start : σ → Cursor
  /-- Where the loop is left. -/
  stop : β → Cursor
  moved : ∀ s, (round s).Yields (Round.Moved start stop (start s))

namespace Loop

variable {σ β : Type} {l : Loop σ β} {s s' : σ} {b : β}

theorem left_lt (h : (l.round s).result = .ok (.again s')) :
    (l.start s').left < (l.start s).left := by
  obtain ⟨hmoves, hreads⟩ := l.moved s _ h
  exact hmoves.left_lt hreads

/-- Goes round until the loop is left. -/
def run (l : Loop σ β) (s : σ) : Traced β :=
  match h : (l.round s).result with
  | .error fault => ⟨(l.round s).reads, .error fault⟩
  | .ok (.leave b) => ⟨(l.round s).reads, .ok b⟩
  | .ok (.again s') =>
    have : (l.start s').left < (l.start s).left := l.left_lt h
    ⟨(l.round s).reads ++ (l.run s').reads, (l.run s').result⟩
termination_by (l.start s).left

/-- What does the same as a round and then itself or nothing is what the loop does. -/
theorem result_run (l : Loop σ β) {f : σ → Except Fault β}
    (hf : ∀ s, f s = (l.round s).result >>= Round.elim f .ok) (s : σ) : (l.run s).result = f s := by
  fun_induction run l s with
  | case1 s fault h => rw [hf, h, Fault.error_bind]
  | case2 s b h =>
    rw [hf, h, Fault.ok_bind]
    rfl
  | case3 s s' h _ ih =>
    rw [hf, h, Fault.ok_bind]
    exact ih

/-- The loop goes on for some rounds, with the reads of each, and is left in the round after. -/
inductive Ends (l : Loop σ β) : σ → List (List Read) → List Read → β → Prop where
  | leave {s : σ} {b : β} (h : (l.round s).result = .ok (.leave b)) :
      Ends l s [] (l.round s).reads b
  | again {s s' : σ} {rounds : List (List Read)} {last : List Read} {b : β}
      (h : (l.round s).result = .ok (.again s')) (hs : Ends l s' rounds last b) :
      Ends l s ((l.round s).reads :: rounds) last b

variable {rounds : List (List Read)} {last : List Read}

/-- A run that yields something goes round a number of times. -/
theorem exists_ends (h : (l.run s).result = .ok b) :
    ∃ rounds last, l.Ends s rounds last b ∧ (l.run s).reads = rounds.flatten ++ last := by
  fun_induction run l s with
  | case1 => cases h
  | case2 s b' hleave =>
    cases h
    exact ⟨[], _, Ends.leave hleave, rfl⟩
  | case3 s s' hagain _ ih =>
    obtain ⟨rounds, last, hends, hreads⟩ := ih h
    refine ⟨_ :: rounds, last, Ends.again hagain hends, ?_⟩
    rw [List.flatten_cons, List.append_assoc, hreads]

/-- A run of rounds moves by all the reads of its rounds, by induction on them. -/
theorem Ends.moves (h : l.Ends s rounds last b) :
    (l.start s).Moves (rounds.flatten ++ last) (l.stop b) := by
  induction h with
  | leave h => exact l.moved _ _ h
  | again h _ ih =>
    rw [List.flatten_cons, List.append_assoc]
    exact (l.moved _ _ h).1.trans ih

/-- Every round but the last has read something. -/
theorem Ends.ne_nil (h : l.Ends s rounds last b) : ∀ reads ∈ rounds, reads ≠ [] := by
  induction h with
  | leave => exact List.forall_mem_nil _
  | again h _ ih => exact List.forall_mem_cons.2 ⟨(l.moved _ _ h).2, ih⟩

/-- There are no more rounds that go on than characters read. -/
theorem Ends.length_le (h : l.Ends s rounds last b) :
    rounds.length ≤ (rounds.flatten ++ last).length := by
  induction h with
  | leave => exact Nat.zero_le _
  | again h _ ih =>
    have hpos := List.length_pos_iff.2 (l.moved _ _ h).2
    rw [List.flatten_cons, List.append_assoc, List.length_append, List.length_cons]
    omega

/-- A loop moves by what it reads. -/
theorem yields_run (l : Loop σ β) (s : σ) :
    (l.run s).Yields fun reads b => (l.start s).Moves reads (l.stop b) := by
  intro b hb
  obtain ⟨rounds, last, hends, hreads⟩ := exists_ends hb
  rw [hreads]
  exact hends.moves

end Loop

/-! ## The loops of a cursor -/

namespace Traced

open Cursor

/-- A round that goes on over the next character. -/
theorem yields_again {c : Cursor} (hend : c.isAtEnd = false) :
    (advance c >>= fun q => pure (.again q.2)).Yields (Round.Moved id id c) := by
  refine (yields_advance c).bind ?_
  rintro reads q ⟨hmoves, hreads⟩
  apply yields_pure
  rw [List.append_nil]
  exact ⟨hmoves, hreads hend⟩

theorem yields_leave (c : Cursor) :
    (pure (.leave c) : Traced (Round Cursor Cursor)).Yields (Round.Moved id id c) :=
  yields_pure (Moves.refl c)

/-- On as long as the next character is of a class, which the end mark is not. -/
def whileLoop (p : Char → Bool) (hp : p endMark = false) : Loop Cursor Cursor where
  round c := do
    let x ← look c.current
    if p x then
      let q ← advance c
      pure (.again q.2)
    else pure (.leave c)
  start := id
  stop := id
  moved c := by
    refine Yields.look_bind fun x hx => Yields.ite (fun hpx => ?_) fun _ => yields_leave c
    -- A character of the class is not what the end reads as.
    exact yields_again (isAtEnd_of_current hx (by rintro rfl; simp [hp] at hpx))

/-- On up to the next `x` or the end. -/
def untilLoop (x : Char) : Loop Cursor Cursor where
  round c :=
    if c.isAtEnd then pure (.leave c)
    else do
      let y ← look c.current
      if y = x then pure (.leave c)
      else
        let q ← advance c
        pure (.again q.2)
  start := id
  stop := id
  moved c := by
    refine Yields.ite (fun _ => yields_leave c) fun hend => Yields.look_bind fun y _ => ?_
    exact Yields.ite (fun _ => yields_leave c) fun _ => yields_again (by simpa using hend)

@[simp] theorem result_whileLoop (p : Char → Bool) (hp : p endMark = false) (c : Cursor) :
    ((whileLoop p hp).run c).result = c.skipWhile p hp := by
  refine Loop.result_run _ (f := fun c => c.skipWhile p hp) (fun c => ?_) c
  rw [skipWhile_eq]
  simp only [whileLoop, result_bind, result_look]
  cases c.current with
  | error fault => rfl
  | ok x =>
    rw [Fault.ok_bind, Fault.ok_bind, result_ite]
    by_cases hpx : p x
    · rw [if_pos hpx, if_pos hpx, result_bind, result_advance]
      cases c.advance <;> rfl
    · rw [if_neg hpx, if_neg hpx]
      rfl

@[simp] theorem result_untilLoop (x : Char) (c : Cursor) :
    ((untilLoop x).run c).result = c.skipUntil x := by
  refine Loop.result_run _ (f := fun c => c.skipUntil x) (fun c => ?_) c
  rw [skipUntil_eq]
  simp only [untilLoop, result_ite, result_bind, result_look]
  by_cases hend : c.isAtEnd
  · rw [if_pos hend, if_pos hend]
    rfl
  · rw [if_neg hend, if_neg hend]
    cases c.current with
    | error fault => rfl
    | ok y =>
      rw [Fault.ok_bind, Fault.ok_bind]
      by_cases hyx : y = x
      · rw [if_pos hyx, if_pos hyx]
        rfl
      · rw [if_neg hyx, if_neg hyx, result_advance]
        cases c.advance <;> rfl

end Traced

end Lexis

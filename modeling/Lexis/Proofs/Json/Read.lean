/-
  Lexis.Proofs.Json.Read

  Readers, and what it means that one reads the texts of a relation.

  A reader takes what it reads off the front of a text. It is right about a relation between texts
  and what they stand for if it reads only such texts, and each of them wherever the text may stop.
  A number, say, may stop where no character follows that could go on with it. Readers are put
  together from a few forms, and each form has one lemma that says what it reads.
-/

import Mathlib.Data.List.TakeWhile

namespace Lexis.Json

variable {α β : Type}

/-- A reader: what stands at the front of a text, and what is left of the text. -/
abbrev Reader (α : Type) :=
  List Char → Option (α × List Char)

/-- A reader reads the texts of a relation where they may stop, and no others. -/
structure Reads (read : Reader α) (P : List Char → α → Prop) (Stops : List Char → Prop) : Prop where
  sound : ∀ {cs a r}, read cs = some (a, r) → ∃ t, cs = t ++ r ∧ P t a
  complete : ∀ {t a r}, P t a → Stops r → read (t ++ r) = some (a, r)

namespace Reads

variable {read : Reader α} {P Q : List Char → α → Prop} {S S' : List Char → Prop}

/-- A reader that is right for a relation is right for any that says the same. -/
theorem congr (h : Reads read P S) (hiff : ∀ t a, P t a ↔ Q t a) : Reads read Q S where
  sound := by
    intro cs a r hread
    obtain ⟨t, ht, ha⟩ := h.sound hread
    exact ⟨t, ht, (hiff t a).1 ha⟩
  complete := fun ha hr => h.complete ((hiff _ _).2 ha) hr

/-- A text may be required to stop earlier than it has to. -/
theorem mono (h : Reads read P S) (hstop : ∀ r, S' r → S r) : Reads read P S' where
  sound := h.sound
  complete := fun ha hr => h.complete ha (hstop _ hr)

end Reads

/-! ## Where a text may stop -/

/-- A text does not start with a character of a class. -/
def Avoids (p : Char → Bool) (cs : List Char) : Prop :=
  ∀ c ∈ cs.head?, p c = false

namespace Avoids

variable {p q : Char → Bool} {c : Char} {cs : List Char}

theorem nil (p : Char → Bool) : Avoids p [] :=
  fun _ h => nomatch h

theorem cons (h : p c = false) (cs : List Char) : Avoids p (c :: cs) := by
  intro d hd
  rwa [← Option.some.inj hd]

theorem mono (h : Avoids p cs) (hpq : ∀ c, p c = false → q c = false) : Avoids q cs :=
  fun c hc => hpq c (h c hc)

theorem head?_ne (h : Avoids p cs) (hc : p c = true) : cs.head? ≠ some c := by
  intro hhead
  rw [h c hhead] at hc
  cases hc

theorem takeWhile (h : Avoids p cs) : cs.takeWhile p = [] := by
  cases cs with
  | nil => rfl
  | cons c cs => exact List.takeWhile_cons_of_neg (by simp [h c rfl])

theorem dropWhile (h : Avoids p cs) : cs.dropWhile p = cs := by
  cases cs with
  | nil => rfl
  | cons c cs => exact List.dropWhile_cons_of_neg (by simp [h c rfl])

end Avoids

/-! ## Forms of readers -/

namespace Reader

/-- Reads nothing. -/
def done (a : α) : Reader α := fun cs =>
  some (a, cs)

/-- Reads one character. -/
def char : Reader Char := fun cs =>
  cs.head?.map (·, cs.tail)

/-- Reads a run of characters of a class, one at least. -/
def run (p : Char → Bool) : Reader (List Char) := fun cs =>
  if cs.takeWhile p = [] then none else some (cs.takeWhile p, cs.dropWhile p)

/-- Reads a number of characters with a property. -/
def block (n : Nat) (p : List Char → Bool) : Reader (List Char) := fun cs =>
  if (cs.take n).length = n ∧ p (cs.take n) = true then some (cs.take n, cs.drop n) else none

/-- Reads on in one way behind a character, and in another way if the text does not start with
    it. -/
def behind (c : Char) (yes no : Reader α) : Reader α := fun cs =>
  if cs.head? = some c then yes cs.tail else no cs

/-- Reads on behind a character that must be there. -/
def after (c : Char) (read : Reader α) : Reader α :=
  behind c read fun _ => none

/-- Makes something of what is read, or refuses it. -/
def filterMap (read : Reader α) (f : α → Option β) : Reader β := fun cs =>
  (read cs).bind fun p => (f p.1).map (·, p.2)

/-- Reads one thing and then another. -/
def seq (first : Reader α) (second : Reader β) : Reader (α × β) := fun cs =>
  (first cs).bind fun p => (second p.2).map fun q => ((p.1, q.1), q.2)

/-- Reads in one way, or else in another. -/
def orElse (first second : Reader α) : Reader α := fun cs =>
  (first cs).or (second cs)

end Reader

namespace Reads

open Reader

variable {f g : Reader α} {h : Reader β} {P Q : List Char → α → Prop} {R : List Char → β → Prop}
  {S S' : List Char → Prop}

theorem done (a : α) : Reads (done a) (fun t b => t = [] ∧ b = a) S where
  sound := by
    rintro cs b r hread
    cases hread
    exact ⟨[], rfl, rfl, rfl⟩
  complete := by
    rintro t b r ⟨rfl, rfl⟩ -
    rfl

theorem char : Reads char (fun t c => t = [c]) S where
  sound := by
    intro cs c r hread
    obtain ⟨d, hd, heq⟩ := Option.map_eq_some_iff.1 hread
    obtain ⟨ds, rfl⟩ := List.head?_eq_some_iff.1 hd
    cases heq
    exact ⟨[_], rfl, rfl⟩
  complete := by
    rintro t c r rfl -
    rfl

/-- The reader of a longest run of a class, which has to end where the run does. -/
theorem run (p : Char → Bool) :
    Reads (run p) (fun t cs => t = cs ∧ cs ≠ [] ∧ ∀ c ∈ cs, p c = true) (Avoids p) where
  sound := by
    intro cs t r hread
    unfold Reader.run at hread
    split at hread
    -- An empty run is refused.
    next => cases hread
    next hne =>
      cases hread
      exact ⟨_, List.takeWhile_append_dropWhile.symm, rfl, hne, fun _ => List.mem_takeWhile_imp⟩
  complete := by
    rintro t cs r ⟨rfl, hne, hall⟩ hr
    rw [Reader.run, List.takeWhile_append_of_pos hall, List.dropWhile_append_of_pos hall,
      hr.takeWhile, hr.dropWhile, List.append_nil, if_neg hne]

/-- The reader of a number of characters that pass a test. -/
theorem block (n : Nat) (p : List Char → Bool) :
    Reads (block n p) (fun t cs => t = cs ∧ cs.length = n ∧ p cs = true) S where
  sound := by
    intro cs t r hread
    unfold Reader.block at hread
    split at hread
    next hp =>
      cases hread
      exact ⟨_, (List.take_append_drop n cs).symm, rfl, hp⟩
    next => cases hread
  complete := by
    rintro t cs r ⟨rfl, hlength, hp⟩ -
    rw [Reader.block, List.take_left' hlength, List.drop_left' hlength, if_pos ⟨hlength, hp⟩]

/-- The second way is only gone if the text does not start with the character. -/
theorem behind {c : Char} (hf : Reads f P S) (hg : Reads g Q S)
    (hnil : ∀ {a r}, Q [] a → S r → r.head? ≠ some c) :
    Reads (behind c f g)
      (fun t a => (∃ u, t = c :: u ∧ P u a) ∨ Q t a ∧ t.head? ≠ some c) S where
  sound := by
    intro cs a r hread
    unfold Reader.behind at hread
    split at hread
    next hhead =>
      obtain ⟨ds, rfl⟩ := List.head?_eq_some_iff.1 hhead
      obtain ⟨u, rfl, hu⟩ := hf.sound hread
      exact ⟨c :: u, rfl, .inl ⟨u, rfl, hu⟩⟩
    next hhead =>
      obtain ⟨t, rfl, ht⟩ := hg.sound hread
      refine ⟨t, rfl, .inr ⟨ht, fun ht => hhead ?_⟩⟩
      rw [List.head?_append, ht, Option.some_or]
  complete := by
    rintro t a r (⟨u, rfl, hu⟩ | ⟨ht, hhead⟩) hr
    · rw [Reader.behind, List.cons_append, List.head?_cons, if_pos rfl, List.tail_cons]
      exact hf.complete hu hr
    -- The other reader is asked only if the character is not in front.
    · have hne : (t ++ r).head? ≠ some c := by
        cases t with
        | nil => exact hnil ht hr
        | cons d t => exact hhead
      rw [Reader.behind, if_neg hne]
      exact hg.complete ht hr

/-- A reader behind a given character. -/
theorem after (c : Char) (hf : Reads f P S) :
    Reads (after c f) (fun t a => ∃ u, t = c :: u ∧ P u a) S := by
  have hnone : Reads (fun _ => none) (fun (_ : List Char) (_ : α) => False) S := by
    constructor
    · intro cs a r hread
      cases hread
    · intro t a r hfalse
      cases hfalse
  refine (hf.behind hnone ?_).congr fun t a => ?_
  · intro a r hfalse
    cases hfalse
  · rw [false_and, or_false]

/-- A reader whose value is looked at, and refused if it is not one wanted. -/
theorem filterMap (hf : Reads f P S) (k : α → Option β) :
    Reads (filterMap f k) (fun t b => ∃ a, P t a ∧ k a = some b) S where
  sound := by
    intro cs b r hread
    obtain ⟨⟨a, r'⟩, ha, hread⟩ := Option.bind_eq_some_iff.1 hread
    obtain ⟨b', hb, heq⟩ := Option.map_eq_some_iff.1 hread
    cases heq
    obtain ⟨t, rfl, ht⟩ := hf.sound ha
    exact ⟨t, rfl, a, ht, hb⟩
  complete := by
    rintro t b r ⟨a, ha, hb⟩ hr
    rw [Reader.filterMap, hf.complete ha hr, Option.bind_some, hb, Option.map_some]

/-- Two readers one behind the other, the first stopping in front of what the second reads. -/
theorem seq (hf : Reads f P S) (hh : Reads h R S')
    (hstop : ∀ {t b r}, R t b → S' r → S (t ++ r)) :
    Reads (seq f h) (fun t p => ∃ u v, t = u ++ v ∧ P u p.1 ∧ R v p.2) S' where
  sound := by
    rintro cs ⟨a, b⟩ r hread
    obtain ⟨⟨a', r'⟩, ha, hread⟩ := Option.bind_eq_some_iff.1 hread
    obtain ⟨⟨b', r''⟩, hb, heq⟩ := Option.map_eq_some_iff.1 hread
    cases heq
    obtain ⟨u, rfl, hu⟩ := hf.sound ha
    obtain ⟨v, rfl, hv⟩ := hh.sound hb
    exact ⟨u ++ v, by rw [List.append_assoc], u, v, rfl, hu, hv⟩
  complete := by
    rintro t ⟨a, b⟩ r ⟨u, v, rfl, hu, hv⟩ hr
    -- The first reader stops where the second one's text begins.
    rw [Reader.seq, List.append_assoc, hf.complete hu (hstop hv hr), Option.bind_some,
      hh.complete hv hr, Option.map_some]

/-- The second way is only gone if the first one fails. -/
theorem orElse (hf : Reads f P S) (hg : Reads g Q S)
    (hnone : ∀ {t a r}, Q t a → S r → f (t ++ r) = none) :
    Reads (orElse f g) (fun t a => P t a ∨ Q t a) S where
  sound := by
    intro cs a r hread
    rcases Option.or_eq_some_iff.1 hread with hread | ⟨-, hread⟩
    · obtain ⟨t, rfl, ht⟩ := hf.sound hread
      exact ⟨t, rfl, .inl ht⟩
    · obtain ⟨t, rfl, ht⟩ := hg.sound hread
      exact ⟨t, rfl, .inr ht⟩
  complete := by
    rintro t a r (ht | ht) hr
    · rw [Reader.orElse, hf.complete ht hr, Option.some_or]
    · rw [Reader.orElse, hnone ht hr, Option.none_or, hg.complete ht hr]

end Reads

end Lexis.Json

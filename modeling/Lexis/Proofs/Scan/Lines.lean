/-
  Lexis.Proofs.Scan.Lines

  The lines of a scanner and of its tokens, counted from the source.

  A session is reached if steps lead to it from the start of its source. Whatever the steps were,
  its scanner is on the line of the place where it stands, and every token that a step answers is
  on the line of its first character: line feeds in the trivia before a token count for it, line
  feeds in its own text only for what comes after.
-/

import Lexis.Proofs.Scan.Replay

namespace Lexis

open Lexis.Text

/-- The line of the place at a byte offset: one more than the line feeds before it. -/
def lineAt? (source : String) (offset : Nat) : Option Nat :=
  (takeBytes? source.toList offset).map fun before => 1 + lineFeeds before

variable {source : String} {u r : List Char}

/-- The line at a cut is told by the line feeds in front of it. -/
theorem lineAt?_byteSize (h : source.toList = u ++ r) :
    lineAt? source (byteSize u) = some (1 + lineFeeds u) := by
  rw [lineAt?, h, takeBytes?_append, Option.map_some]

/-! ## Tokens -/

namespace Item

/-- A token is on the line where its piece begins. -/
theorem line_token (u : List Char) (item : Item) :
    (item.token u).line = 1 + lineFeeds (u ++ item.gap) := by
  rw [token, Piece.token]
  cases item.piece.outcome with
  | ok kind => rfl
  | error e => rfl

/-- A token is on the line of its first character, whatever lines its text goes on to. -/
theorem lineAt?_token (h : source.toList = u ++ r) :
    lineAt? source ((first r).token u).span.start = some ((first r).token u).line := by
  have hgap : source.toList = (u ++ (first r).gap) ++ Trivia.rest r := by
    rw [h, List.append_assoc, first, Trivia.leading_append_rest]
  rw [span_token, line_token]
  exact lineAt?_byteSize hgap

end Item

theorem lineAt?_of_mem_tokens {t : Token} (h : t ∈ tokens source) :
    lineAt? source t.span.start = some t.line := by
  obtain ⟨u, r, hr, rfl⟩ := exists_of_mem_tokens h
  exact Item.lineAt?_token hr

/-! ## Answers -/

namespace Scanner.Answer

/-- The tokens that an answer holds. -/
def held : Answer → List Token
  | token t => [t]
  | token? t => t.toList
  | tokens ts => ts
  | number _ | text _ | done => []

end Scanner.Answer

namespace Bookmark

open Scanner (Step)

variable {ts : List Token} {t : Token}

theorem tokenAt_mem (h : ts ≠ []) (i : Nat) : tokenAt ts i ∈ ts := by
  by_cases hi : i < ts.length
  · rw [tokenAt_of_lt hi]
    exact List.getElem_mem hi
  · -- Behind the end it is the last token.
    have hpos := List.length_pos_iff.2 h
    rw [tokenAt_of_length_le (Nat.not_lt.1 hi), tokenAt_of_lt (by omega)]
    exact List.getElem_mem _

theorem mem_of_mem_left {i : Nat} (h : t ∈ left ts i) : t ∈ ts :=
  List.mem_of_mem_drop (List.mem_filter.1 h).1

/-- Whatever a step looks up comes from the list. -/
theorem mem_of_mem_held (hts : ts ≠ []) {source : String} {b : Bookmark} (x : Step)
    (h : t ∈ (b.step source ts x).1.held) : t ∈ ts := by
  -- Whatever a step answers, it takes from the tokens that are left.
  cases x with
  | scan =>
    rw [List.mem_singleton.1 h]
    exact tokenAt_mem hts b.index
  | next =>
    simp only [step, Scanner.Answer.held] at h
    split at h
    · cases h
    · rw [List.mem_singleton.1 h]
      exact tokenAt_mem hts b.index
  | nth n => exact mem_of_mem_left (List.mem_of_getElem? (Option.mem_toList.1 h))
  | take n => exact mem_of_mem_left (List.mem_of_mem_take h)
  | collect => exact mem_of_mem_left h
  | last => exact mem_of_mem_left (List.mem_of_getLast? (Option.mem_toList.1 h))
  | find kind => exact mem_of_mem_left (List.mem_of_find?_eq_some (Option.mem_toList.1 h))
  | count | source | save | restore => cases h

end Bookmark

/-! ## Sessions that can be reached -/

/-- The counter has room for all that was taken. -/
theorem lineFeeds_taken_lt (h : Scannable source) (i : Nat) :
    lineFeeds (taken source.toList i) < Cursor.maxLine :=
  Nat.lt_of_le_of_lt (lineFeeds_le_of_isPrefix (taken_isPrefix_self source.toList i)) h.lineFeeds_lt

namespace Scanner.Session

/-- A session to which steps lead from the start of a source. -/
inductive Reached (source : String) : Session → Prop where
  | start : Reached source (ofSource source)
  | step {s s' : Session} {answer : Answer} (x : Step) (h : Reached source s)
      (hstep : s.step x = .ok (answer, s')) : Reached source s'

variable {s s' : Session} {answer : Answer} {x : Step}

/-- No step of a session that follows a bookmark fails. -/
theorem exists_step_eq (h : Scannable source) {b : Bookmark} (hs : Follows source s b) (x : Step) :
    ∃ s', s.step x = .ok ((b.step source (tokens source) x).1, s') ∧
      Follows source s' (b.step source (tokens source) x).2 :=
  (replays_step (size_le_maxOffset h.size_le) hs x).ok (lineFeeds_taken_lt h _)

/-- A step that is answered follows the bookmark, whatever lines there are further on. -/
theorem follows_of_step_eq (hsize : source.utf8ByteSize ≤ Cursor.maxOffset) {b : Bookmark}
    (hs : Follows source s b) (hstep : s.step x = .ok (answer, s')) :
    answer = (b.step source (tokens source) x).1 ∧
      Follows source s' (b.step source (tokens source) x).2 := by
  have hreplays := replays_step hsize hs x
  by_cases hlt : lineFeeds (taken source.toList (b.step source (tokens source) x).2.index) <
      Cursor.maxLine
  · obtain ⟨s'', hstep', hs''⟩ := hreplays.ok hlt
    rw [hstep, Except.ok.injEq, Prod.mk.injEq] at hstep'
    rw [hstep'.1, hstep'.2]
    exact ⟨rfl, hs''⟩
  · rw [hreplays.fault (Nat.not_lt.1 hlt)] at hstep
    cases hstep

theorem exists_follows (hsize : source.utf8ByteSize ≤ Cursor.maxOffset) (hs : Reached source s) :
    ∃ b, Follows source s b := by
  induction hs with
  | start => exact ⟨_, follows_ofSource source⟩
  | step x _ hstep ih =>
    obtain ⟨b, hb⟩ := ih
    exact ⟨_, (follows_of_step_eq hsize hb hstep).2⟩

/-- Every session that is reached stands at a token of the source. -/
theorem exists_follows_of_reached (h : Scannable source) (hs : Reached source s) :
    ∃ b, Follows source s b :=
  exists_follows (size_le_maxOffset h.size_le) hs

/-- A session that can be reached is on the line of the place where it stands, and whatever the
    next step is, it answers tokens that are on the lines of their first characters. -/
theorem line_of_reached (h : Scannable source) (hs : Reached source s) :
    lineAt? source s.scanner.position = some s.scanner.line ∧
      ∀ x, ∃ answer s', s.step x = .ok (answer, s') ∧
        ∀ t ∈ answer.held, lineAt? source t.span.start = some t.line := by
  obtain ⟨b, hb⟩ := exists_follows_of_reached h hs
  constructor
  · -- The scanner has read a beginning of the source.
    obtain ⟨r, hr⟩ := taken_isPrefix_self source.toList b.index
    rw [position, line, hb.scanner.cursor_eq]
    exact lineAt?_byteSize hr.symm
  · intro x
    obtain ⟨s', hstep, -⟩ := exists_step_eq h hb x
    refine ⟨_, s', hstep, ?_⟩
    intro t ht
    have hne : tokens source ≠ [] := List.length_pos_iff.1 (length_tokens_pos source)
    exact lineAt?_of_mem_tokens (Bookmark.mem_of_mem_held hne x ht)

/-- A string that goes on to the second line is on the first, and the word behind it is not. -/
theorem line_of_reached_string :
    ∃ s s' : Session, Scannable "\"\n\"c" ∧ Reached "\"\n\"c" s ∧
      (ofSource "\"\n\"c").step .scan = .ok (.token ⟨.string, "\"\n\"", 1, ⟨0, 3⟩⟩, s) ∧
      lineAt? "\"\n\"c" 0 = some 1 ∧
      lineAt? "\"\n\"c" s.scanner.position = some s.scanner.line ∧ s.scanner.line = 2 ∧
      s.step .next = .ok (.token? (some ⟨.identifier, "c", 2, ⟨3, 4⟩⟩), s') ∧
      lineAt? "\"\n\"c" 3 = some 2 := by
  have h : Scannable "\"\n\"c" := ⟨by decide, by decide⟩
  -- The first step by the theorem at the start, the second by the theorem where that leads.
  obtain ⟨answer, s, hscan, hstring⟩ := (line_of_reached h .start).2 .scan
  have hs : Reached "\"\n\"c" s := .step .scan .start hscan
  have hstring' : (ofSource "\"\n\"c").step .scan =
      .ok (.token ⟨.string, "\"\n\"", 1, ⟨0, 3⟩⟩,
        ⟨⟨⟨"\"\n\"c", 3, 2⟩, 0, 1⟩, .ofSource "\"\n\"c"⟩) := by
    decide +kernel
  rw [hstring', Except.ok.injEq, Prod.mk.injEq] at hscan
  obtain ⟨rfl, rfl⟩ := hscan
  obtain ⟨hline, hstep⟩ := line_of_reached h hs
  obtain ⟨answer, s', hnext, hword⟩ := hstep .next
  have hword' : Session.step ⟨⟨⟨"\"\n\"c", 3, 2⟩, 0, 1⟩, .ofSource "\"\n\"c"⟩ .next =
      .ok (.token? (some ⟨.identifier, "c", 2, ⟨3, 4⟩⟩),
        ⟨⟨⟨"\"\n\"c", 4, 2⟩, 3, 2⟩, .ofSource "\"\n\"c"⟩) := by
    decide +kernel
  rw [hword', Except.ok.injEq, Prod.mk.injEq] at hnext
  obtain ⟨rfl, rfl⟩ := hnext
  exact ⟨_, _, h, hs, hstring', hstring _ (List.mem_singleton_self _), hline, rfl, hword',
    hword _ (List.mem_singleton_self _)⟩

end Scanner.Session

end Lexis

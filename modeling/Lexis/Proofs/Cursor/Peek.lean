/-
  Lexis.Proofs.Cursor.Peek

  Looking ahead by bytes finds what counting characters would find.

  A cursor indexes the bytes of its source while they are ASCII, which is right only where it stands
  on the boundary of a character. `onBoundary_of_reached` says that steps of a session lead to no
  other place, whatever the source and however many lines it has; so a look ahead answers with a
  character of the text that has not been read, and only an offset past the largest one has no
  answer.
-/

import Lexis.Cursor.Session
import Lexis.Proofs.Cursor.After

namespace Lexis.Cursor

open Lexis.Text

variable {source : String} {c c' : Cursor} {x y : Char} {u r : List Char} {b : Bool}

/-! ## Steps of a cursor -/

/-- A cursor on the boundary of two characters of a source, or at one of its ends. -/
def OnBoundary (source : String) (c : Cursor) : Prop :=
  c.source = source ∧ ∃ u r, c.Between u r

theorem onBoundary_ofSource (source : String) : OnBoundary source (ofSource source) :=
  ⟨rfl, [], source.toList, rfl, rfl⟩

/-- Passing a character moves it from what is left to what was read. -/
theorem Between.pass (h : c.Between u (x :: r)) (hpass : c.pass x = .ok c') :
    c'.source = c.source ∧ c'.Between (u ++ [x]) r := by
  -- A line feed moves the line on as well, which is nothing to the boundary.
  have hmoved : c'.source = c.source ∧ c'.position = c.position + x.utf8Size := by
    unfold Cursor.pass at hpass
    split at hpass
    · cases hpass
    · split at hpass
      · split at hpass
        · cases hpass
          exact ⟨rfl, rfl⟩
        · cases hpass
      · cases hpass
        exact ⟨rfl, rfl⟩
  obtain ⟨hsource, hposition⟩ := hmoved
  refine ⟨hsource, ?_, ?_⟩
  · rw [hsource, h.toList_eq, List.append_cons]
  · rw [hposition, h.position_eq, byteSize_append, byteSize_cons, byteSize_nil, Nat.add_zero]

/-- A step forward keeps the cursor on a boundary. -/
theorem OnBoundary.advance (h : OnBoundary source c) (hadvance : c.advance = .ok (x, c')) :
    OnBoundary source c' := by
  obtain ⟨rfl, u, r, hbetween⟩ := h
  unfold Cursor.advance at hadvance
  rw [hbetween.nth?_eq, Fault.ok_bind] at hadvance
  -- At the end the cursor answers the end mark and does not move.
  cases r with
  | nil =>
    cases hadvance
    exact ⟨rfl, u, [], hbetween⟩
  | cons y r =>
    obtain ⟨d, hpass, hd⟩ := Fault.map_eq_ok.1 hadvance
    cases hd
    obtain ⟨hsource, hbetween'⟩ := hbetween.pass hpass
    exact ⟨hsource, u ++ [x], r, hbetween'⟩

theorem OnBoundary.matchChar (h : OnBoundary source c) (hmatch : c.matchChar y = .ok (b, c')) :
    OnBoundary source c' := by
  unfold Cursor.matchChar at hmatch
  split at hmatch
  · cases hmatch
    exact h
  · obtain ⟨x, -, hmatch⟩ := Fault.bind_eq_ok.1 hmatch
    split at hmatch
    · obtain ⟨⟨z, d⟩, hadvance, hd⟩ := Fault.map_eq_ok.1 hmatch
      cases hd
      exact h.advance hadvance
    · cases hmatch
      exact h

/-! ## Sessions that can be reached -/

namespace Session

/-- A session to which steps lead from the start of a source; a step that faults leads nowhere. -/
inductive Reached (source : String) : Session → Prop where
  | start : Reached source (ofSource source)
  | step {s : Session} (x : Step) (h : Reached source s) : Reached source (s.step x).2

variable {s s' : Session} {step : Step} {answer : Answer}

/-- One step of a session keeps its cursor and its saved cursor on boundaries. -/
theorem onBoundary_of_attempt (hcursor : OnBoundary source s.cursor)
    (hsaved : OnBoundary source s.saved) (h : s.attempt step = .ok (answer, s')) :
    OnBoundary source s'.cursor ∧ OnBoundary source s'.saved := by
  cases step with
  -- Looking moves nothing; the others move the cursor, or exchange it with the saved one.
  | current | peek | sliceFrom | remaining =>
    obtain ⟨a, -, ha⟩ := Fault.map_eq_ok.1 h
    cases ha
    exact ⟨hcursor, hsaved⟩
  | advance =>
    obtain ⟨⟨x, c⟩, hadvance, hc⟩ := Fault.map_eq_ok.1 h
    cases hc
    exact ⟨hcursor.advance hadvance, hsaved⟩
  | matchChar y =>
    obtain ⟨⟨b, c⟩, hmatch, hc⟩ := Fault.map_eq_ok.1 h
    cases hc
    exact ⟨hcursor.matchChar hmatch, hsaved⟩
  | isAtEnd | source =>
    cases h
    exact ⟨hcursor, hsaved⟩
  | save =>
    cases h
    exact ⟨hcursor, hcursor⟩
  | restore =>
    cases h
    exact ⟨hsaved, hsaved⟩

/-- The run of steps, by induction: every cursor that is reached stands on a boundary. -/
theorem onBoundary_of_reached (h : Reached source s) :
    OnBoundary source s.cursor ∧ OnBoundary source s.saved := by
  induction h with
  | start => exact ⟨onBoundary_ofSource source, onBoundary_ofSource source⟩
  | @step s x _ ih =>
    rw [Session.step]
    cases hattempt : s.attempt x with
    | error fault => exact ih
    | ok q => exact onBoundary_of_attempt ih.1 ih.2 hattempt

/-- A session that can be reached has read a beginning of its source, and however far it looks
    ahead it finds the character at that place of the rest, or the mark of the end. No offset past
    the largest can be looked at. Either way the session stays as it was. -/
theorem step_peek_of_reached {source : String} {s : Session} (h : Reached source s) :
    ∃ u rest, source.toList = u ++ rest.toList ∧ s.cursor.position = byteSize u ∧
      s.cursor.remaining = .ok rest ∧
      ∀ n, s.step (.peek n) =
        (if s.cursor.position + n ≤ maxOffset then .ok (.char (rest.toList[n]?.getD endMark))
          else .error .offsetOverflow, s) := by
  obtain ⟨hsource, u, r, hbetween⟩ := (onBoundary_of_reached h).1
  have htext := hbetween.toList_eq
  rw [hsource] at htext
  refine ⟨u, String.ofList r, ?_, hbetween.position_eq, hbetween.remaining_eq, fun n => ?_⟩
  · rw [String.toList_ofList, htext]
  · rw [String.toList_ofList, Session.step, attempt]
    -- Past the largest offset the peek faults; up to it the end of the text answers the end mark.
    by_cases hn : s.cursor.position + n ≤ maxOffset
    · rw [hbetween.peek_eq hn, if_pos hn]
      rfl
    · have hover : s.cursor.peek n = .error .offsetOverflow := if_pos (Nat.not_le.1 hn)
      rw [hover, if_neg hn]
      rfl

/-- Behind a character of two bytes: a character, a mark that stands in the source, the end, the
    farthest that can be looked at, and one farther. -/
theorem step_peek_of_reached_farthest :
    ∃ s, Reached "éb\x00" s ∧ s.cursor.position = 2 ∧ s.cursor.remaining = .ok "b\x00" ∧
      [0, 1, 2, maxOffset - 2, maxOffset - 1].map (fun n => s.step (.peek n)) =
        [(.ok (.char 'b'), s), (.ok (.char '\x00'), s), (.ok (.char endMark), s),
          (.ok (.char endMark), s), (.error .offsetOverflow, s)] := by
  have hreached : Reached "éb\x00" ((ofSource "éb\x00").step .advance).2 := .step .advance .start
  have hstep : (ofSource "éb\x00").step .advance =
      (.ok (.char 'é'), ⟨⟨"éb\x00", 2, 1⟩, .ofSource "éb\x00"⟩) := by decide +kernel
  rw [hstep] at hreached
  have hremaining : Cursor.remaining ⟨"éb\x00", 2, 1⟩ = .ok "b\x00" := by decide +kernel
  obtain ⟨u, rest, -, -, hrest, hpeek⟩ := step_peek_of_reached hreached
  obtain rfl := Except.ok.inj (hremaining.symm.trans hrest)
  refine ⟨_, hreached, rfl, hremaining, ?_⟩
  have hlist : "b\x00".toList = ['b', '\x00'] := by decide +kernel
  simp only [List.map_cons, List.map_nil, hpeek, hlist]
  rfl

end Session

end Lexis.Cursor

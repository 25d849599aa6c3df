/-
  Lexis.Proofs.Cursor.Split

  A cursor told as its source cut in two: the characters that have been read, and the rest.

  On a cut every step is an operation on lists of characters: nothing is measured in bytes but the
  offset of a slice, and the end is not told by a character. `step_session` says that a session and
  a cut take each step alike, `run_session` that they take all steps alike; so offset, line and text
  of a cursor are those of the cut it stands at, whatever the steps were.
-/

import Lexis.Cursor.Session
import Lexis.Proofs.Scan.Draw

namespace Lexis

open Lexis.Text

/-! ## Slices that end where a beginning of the text does -/

namespace Text

variable {cs u v r w : List Char} {n : Nat}

/-- Bytes that can be taken are a beginning of the text. -/
theorem eq_append_of_takeBytes? (h : takeBytes? cs n = some w) :
    ∃ r, cs = w ++ r ∧ byteSize w = n := by
  fun_induction takeBytes? cs n generalizing w with
  | case1 =>
    cases h
    exact ⟨_, rfl, rfl⟩
  | case2 => cases h
  | case3 c cs n hc ih =>
    obtain ⟨w, hw, rfl⟩ := Option.map_eq_some_iff.1 h
    obtain ⟨r, rfl, hsize⟩ := ih hw
    refine ⟨r, rfl, ?_⟩
    rw [byteSize_cons, hsize]
    omega
  | case4 => cases h

/-- Two beginnings of one text that are of one size are the same. -/
theorem eq_of_append_eq_append (h : u ++ r = v ++ w) (hsize : byteSize u = byteSize v) : u = v := by
  rcases List.append_eq_append_iff.1 h with ⟨m, rfl, -⟩ | ⟨m, rfl, -⟩
  · have hm : byteSize m = 0 := by
      rw [byteSize_append] at hsize
      omega
    rw [byteSize_eq_zero.1 hm, List.append_nil]
  · have hm : byteSize m = 0 := by
      rw [byteSize_append] at hsize
      omega
    rw [byteSize_eq_zero.1 hm, List.append_nil]

/-- A slice up to the end of `u` is what stands in `u` behind a beginning of the size of its
    start. -/
theorem slice?_eq_some_iff :
    slice? (u ++ r) n (byteSize u) = some w ↔ ∃ v, u = v ++ w ∧ byteSize v = n := by
  constructor
  · intro h
    unfold slice? at h
    split at h
    next hle =>
      -- What is dropped and what is taken is told by its bytes, and so is the cut.
      obtain ⟨d, hd, hw⟩ := Option.bind_eq_some_iff.1 h
      obtain ⟨v, hv, rfl⟩ := eq_append_of_dropBytes? hd
      obtain ⟨r', rfl, hsize⟩ := eq_append_of_takeBytes? hw
      rw [← List.append_assoc] at hv
      refine ⟨v, eq_of_append_eq_append hv ?_, rfl⟩
      rw [byteSize_append]
      omega
    next => cases h
  · rintro ⟨v, rfl, rfl⟩
    rw [List.append_assoc, byteSize_append, slice?_append]

/-- There is such a slice just for the boundaries of characters that are not behind `u`. -/
theorem isSome_slice? {source : String} (h : source.toList = u ++ r) :
    (slice? (u ++ r) n (byteSize u)).isSome = true ↔
      n ≤ byteSize u ∧ (⟨n⟩ : String.Pos.Raw).IsValid source := by
  rw [Option.isSome_iff_exists]
  constructor
  · rintro ⟨w, hw⟩
    obtain ⟨v, rfl, rfl⟩ := slice?_eq_some_iff.1 hw
    rw [List.append_assoc] at h
    refine ⟨?_, isValid_byteSize h⟩
    rw [byteSize_append]
    omega
  · rintro ⟨hle, hvalid⟩
    obtain ⟨s, t, hst, hn⟩ := String.Pos.Raw.isValid_iff_exists_append.1 hvalid
    have hsize : byteSize s.toList = n := by
      rw [byteSize_toList, ← String.byteIdx_rawEndPos, ← hn]
    have happend : u ++ r = s.toList ++ t.toList := by rw [← h, hst, String.toList_append]
    -- Of two beginnings of the source one is a beginning of the other, and `u` is not the shorter.
    rcases List.append_eq_append_iff.1 happend with ⟨m, hm, -⟩ | ⟨m, hm, -⟩
    · have hnil : m = [] := by
        rw [hm, byteSize_append] at hsize
        exact byteSize_eq_zero.1 (by omega)
      refine ⟨[], slice?_eq_some_iff.2 ⟨u, (List.append_nil u).symm, ?_⟩⟩
      rw [← hsize, hm, hnil, List.append_nil]
    · exact ⟨m, slice?_eq_some_iff.2 ⟨s.toList, hm, hsize⟩⟩

end Text

namespace Cursor

variable {source : String} {u r : List Char}

/-! ## Cuts -/

/-- A text cut in two. -/
structure Split where
  /-- What has been read. -/
  read : List Char
  /-- What has not. -/
  rest : List Char

namespace Split

/-- The text that is cut. -/
def text (b : Split) : List Char :=
  b.read ++ b.rest

/-- The cut one character further on; at the end it stays where it is. -/
def forward : Split → Split
  | ⟨u, []⟩ => ⟨u, []⟩
  | ⟨u, x :: r⟩ => ⟨u ++ [x], r⟩

/-- What has been read from byte `n` on. -/
def sliceFrom (b : Split) (n : Nat) : Except Fault String :=
  match slice? b.text n (byteSize b.read) with
  | some w => .ok (String.ofList w)
  | none => .error .invalidSlice

/-- Something is read from just the boundaries of characters up to the cut on. -/
theorem exists_sliceFrom {b : Split} {source : String} (h : b.text = source.toList) {n : Nat} :
    (∃ text, b.sliceFrom n = .ok text) ↔
      n ≤ byteSize b.read ∧ (⟨n⟩ : String.Pos.Raw).IsValid source := by
  rw [← isSome_slice? h.symm, sliceFrom, text]
  cases slice? (b.read ++ b.rest) n (byteSize b.read) <;> simp

@[simp] theorem text_forward (b : Split) : b.forward.text = b.text := by
  cases b with
  | mk u r =>
    cases r with
    | nil => rfl
    | cons x r => exact (List.append_cons u x r).symm

end Split

/-- A cut and the one that was kept last. -/
structure Splits where
  now : Split
  saved : Split

namespace Splits

/-- Before the first character of a text, which is also what is kept at first. -/
def ofText (cs : List Char) : Splits :=
  ⟨⟨[], cs⟩, ⟨[], cs⟩⟩

/-- The answer to a step, and the cuts after it. -/
def step (b : Splits) : Step → Except Fault Answer × Splits
  | .current => (.ok (.char (b.now.rest.headD endMark)), b)
  | .peek n =>
    (if maxOffset < byteSize b.now.read + n then .error .offsetOverflow
      else .ok (.char (b.now.rest[n]?.getD endMark)), b)
  | .advance => (.ok (.char (b.now.rest.headD endMark)), { b with now := b.now.forward })
  | .matchChar x =>
    if b.now.rest.head? = some x then (.ok (.flag true), { b with now := b.now.forward })
    else (.ok (.flag false), b)
  | .isAtEnd => (.ok (.flag b.now.rest.isEmpty), b)
  | .sliceFrom n => ((b.now.sliceFrom n).map .text, b)
  | .remaining => (.ok (.text (String.ofList b.now.rest)), b)
  | .source => (.ok (.text (String.ofList b.now.text)), b)
  | .save => (.ok .done, { b with saved := b.now })
  | .restore => (.ok .done, { b with now := b.saved })

/-- The answers to steps in order, with the cuts after each. -/
def run (b : Splits) : List Step → List (Except Fault Answer × Splits)
  | [] => []
  | x :: xs => b.step x :: run (b.step x).2 xs

/-- Both cuts are cuts of one text. -/
structure Cuts (cs : List Char) (b : Splits) : Prop where
  now_eq : b.now.text = cs
  saved_eq : b.saved.text = cs

/-- A step of the machine on cuts keeps both cuts within the text. -/
theorem Cuts.step {cs : List Char} {b : Splits} (h : b.Cuts cs) (x : Step) :
    (b.step x).2.Cuts cs := by
  -- Moving forward cuts the same text elsewhere.
  have hforward : b.now.forward.text = cs := (Split.text_forward _).trans h.now_eq
  cases x with
  | current | peek | isAtEnd | sliceFrom | remaining | source => exact h
  | advance => exact { now_eq := hforward, saved_eq := h.saved_eq }
  | matchChar x =>
    rw [Splits.step]
    by_cases hx : b.now.rest.head? = some x
    · rw [if_pos hx]
      exact { now_eq := hforward, saved_eq := h.saved_eq }
    · rw [if_neg hx]
      exact h
  | save => exact { now_eq := h.now_eq, saved_eq := h.now_eq }
  | restore => exact { now_eq := h.saved_eq, saved_eq := h.saved_eq }

/-- The run of steps keeps them too, by induction on the steps. -/
theorem Cuts.run {cs : List Char} {b : Splits} (h : b.Cuts cs) (steps : List Step) :
    ∀ out ∈ b.run steps, out.2.Cuts cs := by
  induction steps generalizing b with
  | nil => exact List.forall_mem_nil _
  | cons x steps ih => exact List.forall_mem_cons.2 ⟨h.step x, ih (h.step x)⟩

/-- The session that stands at cuts of a source: offsets are sizes of what has been read, and the
    line is one more than the line feeds in it. -/
def session (source : String) (b : Splits) : Session :=
  ⟨⟨source, byteSize b.now.read, 1 + lineFeeds b.now.read⟩,
    ⟨source, byteSize b.saved.read, 1 + lineFeeds b.saved.read⟩⟩

end Splits

/-! ## Steps -/

/-- What a peek answers at a cut, the overflow of the offset included. -/
theorem peek_eq (h : Parts source u r) (n : Nat) :
    (after source u).peek n =
      if maxOffset < byteSize u + n then .error .offsetOverflow
      else .ok (r[n]?.getD endMark) := by
  by_cases hn : maxOffset < byteSize u + n
  · rw [if_pos hn]
    exact if_pos hn
  · rw [if_neg hn, peek_after h (Nat.not_lt.1 hn)]

/-- At the end a step forward answers the end mark and stays. -/
theorem advance_after_nil (h : Parts source u []) :
    (after source u).advance = .ok (endMark, after source u) := by
  unfold advance
  rw [nth?_after h]
  rfl

/-- Every slice up to the cursor that has its start on a boundary is taken, and no other is. -/
theorem sliceFrom_eq (h : Parts source u r) (n : Nat) :
    (after source u).sliceFrom n = Split.sliceFrom ⟨u, r⟩ n := by
  rw [Split.sliceFrom, Split.text]
  cases hslice : slice? (u ++ r) n (byteSize u) with
  | some w =>
    obtain ⟨v, rfl, rfl⟩ := slice?_eq_some_iff.1 hslice
    refine sliceFrom_after (r := r) ⟨?_, h.size_le⟩
    rw [h.toList_eq, List.append_assoc]
  | none =>
    have hnone : ¬ (n ≤ byteSize u ∧ (⟨n⟩ : String.Pos.Raw).IsValid source) := by
      rw [← isSome_slice? h.toList_eq, hslice]
      decide
    obtain ⟨q, hq, -⟩ := place_after h u
    unfold sliceFrom
    -- The start is no place, or it is one behind the cursor.
    by_cases hvalid : (⟨n⟩ : String.Pos.Raw).IsValid source
    · obtain ⟨p, hp⟩ : ∃ p, (after source u).place n = .ok p := ⟨_, dif_pos hvalid⟩
      rw [after_position, hp, hq, Fault.ok_bind, Fault.ok_bind,
        if_neg fun hle => hnone ⟨hle, hvalid⟩]
    · have hplace : (after source u).place n = .error .invalidSlice := dif_neg hvalid
      rw [hplace, Fault.error_bind]

namespace Session

variable {b : Splits}

/-- A step that answers leads to the session it answers with. -/
theorem step_of_ok {s s' : Session} {x : Step} {answer : Answer}
    (h : s.attempt x = .ok (answer, s')) : s.step x = (.ok answer, s') := by
  rw [step, h]

/-- One step of a session at cuts of its source is one step of the cuts. -/
theorem step_session (hsource : Scannable source) (h : b.Cuts source.toList) (x : Step) :
    (b.session source).step x = ((b.step x).1, (b.step x).2.session source) := by
  obtain ⟨⟨u, r⟩, saved⟩ := b
  have htext : source.toList = u ++ r := h.now_eq.symm
  have hparts : Parts source u r := hsource.parts htext
  have hlt : lineFeeds u < maxLine := hsource.lineFeeds_lt_of_eq htext
  have hcursor : (Splits.session source ⟨⟨u, r⟩, saved⟩).cursor = after source u := rfl
  -- One case for each step: both machines look at the same cut.
  cases x with
  | current =>
    apply step_of_ok
    rw [attempt, hcursor, current_after hparts]
    rfl
  | peek n =>
    rw [step, attempt, hcursor, peek_eq hparts, Splits.step]
    by_cases hn : maxOffset < byteSize u + n
    · rw [if_pos hn, if_pos hn]
      rfl
    · rw [if_neg hn, if_neg hn]
      rfl
  | advance =>
    apply step_of_ok
    rw [attempt, hcursor]
    cases r with
    | nil =>
      rw [advance_after_nil hparts]
      rfl
    | cons x r =>
      rw [advance_after hparts hlt,
        hsource.reach_eq (htext.trans (List.append_cons u x r))]
      rfl
  | matchChar y =>
    rw [step, attempt, hcursor, Splits.step]
    cases r with
    | nil =>
      rw [matchChar_after_nil hparts, if_neg (by simp)]
      rfl
    | cons x r =>
      rw [matchChar_after hparts hlt,
        hsource.reach_eq (htext.trans (List.append_cons u x r))]
      by_cases hxy : x = y
      · have hhead : (x :: r).head? = some y := congrArg some hxy
        rw [if_pos hxy, if_pos hhead]
        rfl
      · have hhead : ¬ (x :: r).head? = some y := fun heq => hxy (Option.some.inj heq)
        rw [if_neg hxy, if_neg hhead]
        rfl
  | isAtEnd =>
    apply step_of_ok
    rw [attempt, hcursor, isAtEnd_after hparts]
    rfl
  | sliceFrom n =>
    rw [step, attempt, hcursor, sliceFrom_eq hparts, Splits.step]
    cases Split.sliceFrom ⟨u, r⟩ n <;> rfl
  | remaining =>
    apply step_of_ok
    rw [attempt, hcursor, remaining_after hparts]
    rfl
  | source =>
    apply step_of_ok
    rw [attempt, hcursor, after_source]
    show _ = Except.ok (Answer.text (String.ofList (u ++ r)), _)
    rw [← htext, String.ofList_toList]
    rfl
  | save | restore => rfl

/-- All steps of a session at cuts of its source are those of the cuts. -/
theorem run_session (hsource : Scannable source) (h : b.Cuts source.toList) (steps : List Step) :
    (b.session source).run steps =
      (b.run steps).map fun out => (out.1, out.2.session source) := by
  induction steps generalizing b with
  | nil => rfl
  | cons x steps ih =>
    rw [Splits.run, List.map_cons, ← ih (h.step x), run, step_session hsource h]

/-- A run of a session is that of the cuts of its source, all of them cuts of the whole source; and
    something is read from just the boundaries of characters up to the cut on. -/
theorem run_splits {source : String} (hsource : Scannable source) (steps : List Step) :
    (ofSource source).run steps =
        ((Splits.ofText source.toList).run steps).map (fun out => (out.1, out.2.session source)) ∧
      ∀ out ∈ (Splits.ofText source.toList).run steps,
        out.2.now.text = source.toList ∧ out.2.saved.text = source.toList ∧
        ∀ n, (∃ text, out.2.now.sliceFrom n = .ok text) ↔
          n ≤ byteSize out.2.now.read ∧ (⟨n⟩ : String.Pos.Raw).IsValid source := by
  have hstart : (Splits.ofText source.toList).Cuts source.toList := ⟨rfl, rfl⟩
  refine ⟨run_session hsource hstart steps, ?_⟩
  intro out hout
  have hcuts := hstart.run steps out hout
  exact ⟨hcuts.now_eq, hcuts.saved_eq, fun n => Split.exists_sliceFrom hcuts.now_eq⟩

/-- The mark of the end is matched where it stands in the source, and not at the end; inside a
    character no slice starts, and none behind the cursor. -/
theorem run_splits_endMark :
    ((ofSource "é\n\x00").run
        [.matchChar '\x00', .advance, .save, .advance, .matchChar '\x00', .matchChar '\x00',
          .advance, .isAtEnd, .sliceFrom 1, .sliceFrom 2, .restore, .sliceFrom 3,
          .remaining]).map Prod.fst =
      [.ok (.flag false), .ok (.char 'é'), .ok .done, .ok (.char '\n'), .ok (.flag true),
        .ok (.flag false), .ok (.char endMark), .ok (.flag true), .error .invalidSlice,
        .ok (.text "\n\x00"), .ok .done, .error .invalidSlice, .ok (.text "\n\x00")] := by
  rw [(run_splits ⟨by decide, by decide⟩ _).1, List.map_map]
  decide +kernel

end Session

end Cursor

end Lexis

/-
  Lexis.Proofs.Scan.Draw

  What is drawn from a scanner, in terms of the items of its source.

  `Draws` describes one draw completely: its answer and where it leaves the cursor if the lines
  read keep to the limit, and the fault if they do not. Draws in a row compose, so every operation
  on a scanner comes down to a single scan.
-/

import Lexis.Proofs.Scan.Item
import Lexis.Proofs.Scan.Rule

namespace Lexis.Scanner

open Lexis.Text Lexis.Cursor

variable {α β : Type} {source : String} {u v w r : List Char}

/-- A draw answers `a` and leaves the cursor after `v`, unless `v` has too many lines. -/
structure Draws (source : String) (draw : Except Fault (α × Scanner)) (a : α) (v : List Char) :
    Prop where
  ok : lineFeeds v < maxLine → ∃ s, draw = .ok (a, s) ∧ s.cursor = after source v
  fault : maxLine ≤ lineFeeds v → draw = .error .lineOverflow

namespace Draws

theorem done {s : Scanner} (a : α) (hs : s.cursor = after source v) (hv : lineFeeds v < maxLine) :
    Draws source (.ok (a, s)) a v :=
  ⟨fun _ => ⟨s, rfl, hs⟩, fun hle => absurd hv (Nat.not_lt.2 hle)⟩

theorem map {x : Except Fault (α × Scanner)} {a : α} (hx : Draws source x a v) (f : α → β) :
    Draws source (x.map fun q => (f q.1, q.2)) (f a) v := by
  constructor
  · intro hv
    obtain ⟨s, rfl, hs⟩ := hx.ok hv
    exact ⟨s, rfl, hs⟩
  · intro hv
    rw [hx.fault hv, Fault.map_error]

/-- A draw after which another one is made is a draw that goes as far as the second. -/
theorem bind {x : Except Fault (α × Scanner)} {f : α × Scanner → Except Fault (β × Scanner)}
    {a : α} {b : β} (hx : Draws source x a v) (hvw : v <+: w)
    (hf : ∀ s : Scanner, s.cursor = after source v → lineFeeds v < maxLine →
      Draws source (f (a, s)) b w) :
    Draws source (x >>= f) b w := by
  by_cases hv : lineFeeds v < maxLine
  · obtain ⟨s, rfl, hs⟩ := hx.ok hv
    rw [Fault.ok_bind]
    exact hf s hs hv
  · -- The first draw fails already, and `w` has no fewer lines than `v`.
    have hle : maxLine ≤ lineFeeds v := Nat.not_lt.1 hv
    have hw : maxLine ≤ lineFeeds w := Nat.le_trans hle (lineFeeds_le_of_isPrefix hvw)
    rw [hx.fault hle, Fault.error_bind]
    exact ⟨fun hlt => absurd hlt (Nat.not_lt.2 hw), fun _ => rfl⟩

end Draws

/-! ## One token -/

theorem draws_yield (source : String) (u : List Char) (p : Piece) :
    Draws source (yield source u p)
      (p.token (1 + lineFeeds u) ⟨byteSize u, byteSize (u ++ p.text)⟩) (u ++ p.text) := by
  constructor
  · intro hv
    rw [yield, reach_of_lt hv]
    exact ⟨_, rfl, rfl⟩
  · intro hv
    rw [yield, reach_of_le hv]
    rfl

/-- A scan draws the token of the first item of what has not been read. -/
theorem draws_scan {s : Scanner} (hs : s.cursor = after source u) (h : Parts source u r)
    (hu : lineFeeds u < maxLine) :
    Draws source s.scan ((Item.first r).token u) (u ++ (Item.first r).text) := by
  have hyield := draws_yield source (u ++ Trivia.leading false r) (Piece.next (Trivia.rest r))
  rw [scan_after hs h hu]
  simpa [Item.token, Item.text, Item.first] using hyield

/-! ## All tokens -/

/-- One round of the loop over all tokens. -/
theorem drain_eq (s : Scanner) :
    s.drain = s.scan >>= fun q =>
      if q.1.isEof then .ok ([q.1], q.2) else q.2.drain.map fun q' => (q.1 :: q'.1, q'.2) := by
  rw [drain]
  split
  next hx =>
    rw [hx]
    rfl
  next hx =>
    conv_rhs => rw [hx, Fault.ok_bind]
    split <;> rfl

/-- All tokens to the end are those of the items, by induction on what is left. -/
theorem draws_drain {s : Scanner} (hs : s.cursor = after source u) (h : Parts source u r)
    (hu : lineFeeds u < maxLine) :
    Draws source s.drain (tokensAfter u (items r)) (u ++ r) := by
  -- On the items of the text, with the scanner and what it has read left free.
  induction r using items_induction generalizing s u with
  | last r hlast =>
    have heof : ((Item.first r).token u).isEof = true := Item.isEof_token_first.2 hlast
    have hscan := draws_scan hs h hu
    rw [text_of_last hlast] at hscan
    rw [items_of_last hlast, drain_eq]
    refine hscan.bind (List.prefix_refl _) ?_
    intro s' hs' hlt
    rw [if_pos heof]
    exact Draws.done _ hs' hlt
  | piece r hpiece ih =>
    have heof : ¬ ((Item.first r).token u).isEof = true :=
      fun h => hpiece (Item.isEof_token_first.1 h)
    have hscan := draws_scan hs h hu
    have happend := Item.text_append_rest r
    have hparts : Parts source u ((Item.first r).text ++ Item.rest r) := by rwa [happend]
    rw [items_of_piece hpiece, drain_eq]
    refine hscan.bind ?_ ?_
    · exact ⟨Item.rest r, by rw [List.append_assoc, happend]⟩
    · intro s' hs' hlt
      rw [if_neg heof]
      have hrest := ih hs' hparts.read hlt
      rw [List.append_assoc, happend] at hrest
      exact hrest.map (fun ts => (Item.first r).token u :: ts)

end Lexis.Scanner

namespace Lexis

open Lexis.Text Lexis.Cursor

/-- The tokens of a source can be had if and only if its lines keep to the limit. -/
theorem tokenize_eq {source : String} (h : source.utf8ByteSize ≤ maxOffset) :
    tokenize source =
      if lineFeeds source.toList < maxLine then .ok (tokens source) else .error .lineOverflow := by
  have hdraws : Scanner.Draws source (Scanner.ofSource source).drain (tokens source)
      source.toList := Scanner.draws_drain rfl (Parts.whole h) (by decide)
  unfold tokenize
  by_cases hlt : lineFeeds source.toList < maxLine
  · obtain ⟨s, hs, -⟩ := hdraws.ok hlt
    rw [if_pos hlt, hs, Fault.map_ok]
  · rw [if_neg hlt, hdraws.fault (Nat.not_lt.1 hlt), Fault.map_error]

/-- All tokens are some tokens and the end token behind them. -/
theorem Scanner.exists_of_drain {s s' : Scanner} {ts : List Token} (h : s.drain = .ok (ts, s')) :
    ∃ us t, ts = us ++ [t] ∧ t.kind = .eof := by
  -- On the bytes that are left, as the loop itself.
  induction hn : s.cursor.left using Nat.strongRecOn generalizing s s' ts with
  | ind n ih =>
    rw [drain_eq] at h
    obtain ⟨⟨t, s₁⟩, hscan, h⟩ := Fault.bind_eq_ok.1 h
    split at h
    next heof =>
      cases h
      exact ⟨[], t, rfl, eq_of_beq heof⟩
    next heof =>
      obtain ⟨⟨us, s₂⟩, hrest, h⟩ := Fault.map_eq_ok.1 h
      cases h
      have hleft : s₁.cursor.left < n := hn ▸ left_of_scan hscan (Bool.not_eq_true _ ▸ heof)
      obtain ⟨vs, e, rfl, he⟩ := ih _ hleft hrest rfl
      exact ⟨t :: vs, e, rfl, he⟩

theorem exists_of_tokenize {source : String} {ts : List Token} (h : tokenize source = .ok ts) :
    ∃ us t, ts = us ++ [t] ∧ t.kind = .eof := by
  obtain ⟨⟨ts, s⟩, hdrain, rfl⟩ := Fault.map_eq_ok.1 h
  exact Scanner.exists_of_drain hdrain

/-- The most bytes that a text in memory has. -/
def maxSize : Nat := 0x7FFFFFFFFFFFFFFF

/-- A source that fits into memory and whose lines can be numbered. -/
structure Scannable (source : String) : Prop where
  size_le : source.utf8ByteSize ≤ maxSize
  lineFeeds_lt : lineFeeds source.toList < maxLine

/-- Texts in memory are far from the limit of offsets. -/
theorem size_le_maxOffset {source : String} (h : source.utf8ByteSize ≤ maxSize) :
    source.utf8ByteSize ≤ maxOffset :=
  Nat.le_trans h (by decide)

namespace Scannable

variable {source : String} {u r : List Char}

theorem parts (h : Scannable source) (htext : source.toList = u ++ r) : Parts source u r :=
  ⟨htext, size_le_maxOffset h.size_le⟩

/-- No beginning of the source has too many lines. -/
theorem lineFeeds_lt_of_eq (h : Scannable source) (htext : source.toList = u ++ r) :
    lineFeeds u < maxLine :=
  Nat.lt_of_le_of_lt (lineFeeds_le_of_isPrefix ⟨r, htext.symm⟩) h.lineFeeds_lt

theorem reach_eq (h : Scannable source) (htext : source.toList = u ++ r) :
    reach source u = .ok (after source u) :=
  reach_of_lt (h.lineFeeds_lt_of_eq htext)

end Scannable

/-- What stands in a text that can be scanned can be scanned by itself. -/
theorem Scannable.part {source part : String} {u r : List Char} (h : Scannable source)
    (hpart : source.toList = u ++ (part.toList ++ r)) : Scannable part := by
  have hsize := h.size_le
  have hlines := h.lineFeeds_lt
  rw [← byteSize_toList, hpart, byteSize_append, byteSize_append, byteSize_toList] at hsize
  rw [hpart, lineFeeds_append, lineFeeds_append] at hlines
  exact ⟨by omega, by omega⟩

/-- On every scannable source the scanner answers the tokens of its items. -/
theorem tokenize_of_scannable {source : String} (h : Scannable source) :
    tokenize source = .ok (tokens source) := by
  rw [tokenize_eq (size_le_maxOffset h.size_le), if_pos h.lineFeeds_lt]

end Lexis

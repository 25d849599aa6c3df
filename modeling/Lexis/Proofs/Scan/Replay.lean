/-
  Lexis.Proofs.Scan.Replay

  A scanner follows a bookmark in the list of all tokens of its source.

  A scanner stands at index `i` if its cursor has read just what the first `i` items take up. Every
  operation draws what the bookmark looks up and leaves the scanner at the bookmark's new index,
  unless the lines up to there pass the limit. A session then follows a bookmark step by step.
-/

import Lexis.Proofs.Scan.Bookmark
import Lexis.Proofs.Scan.Draw
import Mathlib.Data.List.Forall2

namespace Lexis

open Lexis.Text Lexis.Cursor
open Bookmark (left tokenAt ahead offset)

variable {source : String} {i : Nat}

/-! ## The tokens of a source as a list -/

theorem lt_length_items (hi : i < (tokens source).length) : i < (items source.toList).length := by
  rwa [← length_tokens]

/-- Item `i` of a source is the first behind what the items before it take up. -/
theorem exists_tokenAt_eq (hi : i < (tokens source).length) :
    ∃ r, source.toList = taken source.toList i ++ r ∧
      tokenAt (tokens source) i = (Item.first r).token (taken source.toList i) ∧
      taken source.toList (i + 1) = taken source.toList i ++ (Item.first r).text ∧
      ((Item.first r).piece.text = [] ↔ i + 1 = (tokens source).length) := by
  have hlt := lt_length_items hi
  obtain ⟨r, hr, hfirst⟩ := exists_first_eq_getElem hlt
  refine ⟨r, hr, ?_, ?_, ?_⟩
  · rw [tokenAt, getElem_tokens hlt, Option.getD_some, hfirst]
  · rw [taken_succ hlt, hfirst]
  · rw [hfirst, piece_getElem_items hlt, length_tokens]

theorem length_tokens_pos (source : String) : 0 < (tokens source).length := by
  rw [length_tokens]
  exact length_items_pos _

/-- Behind all tokens the whole source has been taken up. -/
theorem taken_length_tokens (source : String) :
    taken source.toList (tokens source).length = source.toList :=
  taken_of_length_le (Nat.le_of_eq (length_tokens source).symm)

/-- Behind the end one finds the end token that stands after the whole source. -/
theorem tokenAt_of_length_le (hi : (tokens source).length ≤ i) :
    tokenAt (tokens source) i = (Item.first []).token source.toList := by
  have hpos := length_tokens_pos source
  have hlt : (tokens source).length - 1 < (tokens source).length := Nat.sub_one_lt_of_lt hpos
  obtain ⟨r, hr, htoken, -, hlast⟩ := exists_tokenAt_eq hlt
  have hnil : (Item.first r).piece.text = [] := hlast.2 (by omega)
  rw [Bookmark.tokenAt_of_length_le hi, htoken, Item.token_of_last hnil, ← hr]

/-- The end token is found at the end and behind it. -/
theorem isEof_tokenAt (source : String) (i : Nat) :
    (tokenAt (tokens source) i).isEof = true ↔ (tokens source).length ≤ i + 1 := by
  by_cases hlt : i < (tokens source).length
  · obtain ⟨r, -, htoken, -, hlast⟩ := exists_tokenAt_eq hlt
    rw [htoken, Item.isEof_token_first, hlast]
    omega
  · have hle : (tokens source).length ≤ i := Nat.not_lt.1 hlt
    rw [tokenAt_of_length_le hle, Item.isEof_token_first]
    exact iff_of_true rfl (Nat.le_succ_of_le hle)

theorem left_of_succ_lt (hi : i + 1 < (tokens source).length) :
    left (tokens source) i = tokenAt (tokens source) i :: left (tokens source) (i + 1) := by
  have hlt : i < (tokens source).length := Nat.lt_of_succ_lt hi
  have heof := isEof_tokenAt source i
  rw [Bookmark.tokenAt_of_lt hlt] at heof ⊢
  apply Bookmark.left_of_not_isEof hlt
  rw [← Bool.not_eq_true, heof]
  omega

theorem left_of_length_le_succ (hle : (tokens source).length ≤ i + 1) :
    left (tokens source) i = [] := by
  by_cases hlt : i < (tokens source).length
  · have heof := isEof_tokenAt source i
    rw [Bookmark.tokenAt_of_lt hlt] at heof
    rw [Bookmark.left_of_isEof hlt (heof.2 hle), Bookmark.left_of_length_le hle]
  · exact Bookmark.left_of_length_le (Nat.not_lt.1 hlt)

/-- What has been taken up ends where the span before the index does. -/
theorem byteSize_taken (hi : i ≤ (tokens source).length) :
    byteSize (taken source.toList i) = offset (tokens source) i := by
  cases i with
  | zero => rfl
  | succ i =>
    obtain ⟨r, -, htoken, htaken, -⟩ := exists_tokenAt_eq hi
    rw [offset, htoken, htaken, Item.span_token]

/-! ## Drawing at an index -/

namespace Scanner

/-- A scanner has read what the first `i` items take up. -/
structure At (source : String) (s : Scanner) (i : Nat) : Prop where
  cursor_eq : s.cursor = after source (taken source.toList i)
  index_le : i ≤ (tokens source).length
  lineFeeds_lt : lineFeeds (taken source.toList i) < maxLine

theorem at_ofSource (source : String) : At source (ofSource source) 0 := by
  refine ⟨rfl, Nat.zero_le _, ?_⟩
  rw [taken_zero]
  decide

/-- A draw answers `a` and leaves the scanner at index `j`. -/
def DrawsTo {α : Type} (source : String) (draw : Except Fault (α × Scanner)) (a : α) (j : Nat) :
    Prop :=
  Draws source draw a (taken source.toList j)

variable {s : Scanner}

/-- A scan answers the token at the index and goes one on, but not past the last. -/
theorem draws_scan_at (hsize : source.utf8ByteSize ≤ maxOffset) (hs : At source s i) :
    DrawsTo source s.scan (tokenAt (tokens source) i) (min (i + 1) (tokens source).length) := by
  by_cases hlt : i < (tokens source).length
  · obtain ⟨r, hr, htoken, htaken, -⟩ := exists_tokenAt_eq hlt
    rw [DrawsTo, Nat.min_eq_left hlt, htoken, htaken]
    exact draws_scan hs.cursor_eq ⟨hr, hsize⟩ hs.lineFeeds_lt
  · -- Behind the end the end token is made anew; it is the one that is last in the list.
    have hi : i = (tokens source).length := Nat.le_antisymm hs.index_le (Nat.not_lt.1 hlt)
    have htaken : taken source.toList i = source.toList := by rw [hi, taken_length_tokens]
    have hcursor := hs.cursor_eq
    have hlines := hs.lineFeeds_lt
    rw [htaken] at hcursor hlines
    have hscan := draws_scan hcursor ⟨(List.append_nil _).symm, hsize⟩ hlines
    rw [DrawsTo, Nat.min_eq_right (by omega), taken_length_tokens,
      tokenAt_of_length_le (Nat.le_of_eq hi.symm)]
    simpa [Item.text, Item.first, Trivia.leading, Trivia.rest, Piece.next] using hscan

/-- The iterator answers the same token, unless it is the end. -/
theorem draws_next_at (hsize : source.utf8ByteSize ≤ maxOffset) (hs : At source s i) :
    DrawsTo source s.next
      (if (tokenAt (tokens source) i).isEof then none else some (tokenAt (tokens source) i))
      (min (i + 1) (tokens source).length) :=
  (draws_scan_at hsize hs).map fun t => if t.isEof then none else some t

/-- With no token left nothing is drawn, and everything is read. -/
theorem draws_next_nil (hsize : source.utf8ByteSize ≤ maxOffset) (hs : At source s i)
    (hleft : left (tokens source) i = []) :
    DrawsTo source s.next none (tokens source).length := by
  have hdraw := draws_next_at hsize hs
  -- Only at the end token or behind it is nothing left.
  have hle : (tokens source).length ≤ i + 1 := by
    by_contra hlt
    rw [left_of_succ_lt (Nat.not_le.1 hlt)] at hleft
    cases hleft
  rwa [if_pos ((isEof_tokenAt source i).2 hle), Nat.min_eq_right hle] at hdraw

/-- The first of the tokens left is drawn, and the others are left. -/
theorem draws_next_cons {t : Token} {ts : List Token} (hsize : source.utf8ByteSize ≤ maxOffset)
    (hs : At source s i) (hleft : left (tokens source) i = t :: ts) :
    ts = left (tokens source) (i + 1) ∧ i + 1 ≤ (tokens source).length ∧
      DrawsTo source s.next (some t) (i + 1) := by
  have hdraw := draws_next_at hsize hs
  -- The token that is left is not the last one, which is the end.
  have hlt : i + 1 < (tokens source).length := by
    by_contra hle
    rw [left_of_length_le_succ (Nat.not_lt.1 hle)] at hleft
    cases hleft
  have hne : ¬ (tokenAt (tokens source) i).isEof = true := by
    rw [isEof_tokenAt]
    omega
  rw [left_of_succ_lt hlt, List.cons.injEq] at hleft
  obtain ⟨rfl, rfl⟩ := hleft
  rw [if_neg hne, Nat.min_eq_left (Nat.le_of_lt hlt)] at hdraw
  exact ⟨rfl, Nat.le_of_lt hlt, hdraw⟩

/-! ## Drawing several tokens -/

/-- One round of the loop that passes tokens. -/
theorem nth_succ_eq (n : Nat) (s : Scanner) :
    nth (n + 1) s = s.next >>= fun q =>
      match q.1 with
      | none => .ok (none, q.2)
      | some _ => nth n q.2 := by
  rw [nth]
  split
  next hx =>
    rw [hx]
    rfl
  next hx =>
    rw [hx]
    rfl
  next hx =>
    rw [hx]
    rfl

theorem take_succ_eq (n : Nat) (s : Scanner) :
    take (n + 1) s = s.next >>= fun q =>
      match q.1 with
      | none => .ok ([], q.2)
      | some t => (take n q.2).map fun q' => (t :: q'.1, q'.2) := by
  rw [take]
  split
  next hx =>
    rw [hx]
    rfl
  next hx =>
    rw [hx]
    rfl
  next hx =>
    rw [hx]
    rfl

theorem collect_eq (s : Scanner) :
    s.collect = s.next >>= fun q =>
      match q.1 with
      | none => .ok ([], q.2)
      | some t => q.2.collect.map fun q' => (t :: q'.1, q'.2) := by
  rw [collect]
  split
  next hx =>
    rw [hx]
    rfl
  next hx =>
    rw [hx]
    rfl
  next hx =>
    conv_rhs => rw [hx, Fault.ok_bind]

theorem find_eq (kind : Kind) (s : Scanner) :
    find kind s = s.next >>= fun q =>
      match q.1 with
      | none => .ok (none, q.2)
      | some t => if t.kind = kind then .ok (some t, q.2) else find kind q.2 := by
  rw [find]
  split
  next hx =>
    rw [hx]
    rfl
  next hx =>
    rw [hx]
    rfl
  next hx =>
    conv_rhs => rw [hx, Fault.ok_bind]

/-- Going on from a token that is drawn next to what is drawn at the index behind it. -/
theorem DrawsTo.bind {α β : Type} {x : Except Fault (α × Scanner)}
    {f : α × Scanner → Except Fault (β × Scanner)} {a : α} {b : β} {j k : Nat}
    (hx : DrawsTo source x a j) (hj : j ≤ (tokens source).length) (hjk : j ≤ k)
    (hf : ∀ s, At source s j → DrawsTo source (f (a, s)) b k) :
    DrawsTo source (x >>= f) b k :=
  Draws.bind hx (taken_isPrefix _ hjk) fun s hs hlt => hf s ⟨hs, hj, hlt⟩

theorem DrawsTo.done {α : Type} (a : α) (hs : At source s i) :
    DrawsTo source (.ok (a, s)) a i :=
  Draws.done a hs.cursor_eq hs.lineFeeds_lt

/-- A draw that finds no token left ends there. -/
theorem DrawsTo.finish {β : Type} {x : Except Fault (Option Token × Scanner)}
    {f : Option Token × Scanner → Except Fault (β × Scanner)} {b : β}
    (hx : DrawsTo source x none (tokens source).length)
    (hf : ∀ s : Scanner, f (none, s) = .ok (b, s)) :
    DrawsTo source (x >>= f) b (tokens source).length := by
  refine hx.bind (Nat.le_refl _) (Nat.le_refl _) ?_
  intro s hs
  rw [hf]
  exact DrawsTo.done b hs

/-- Passing tokens, by induction on their number. -/
theorem draws_nth (hsize : source.utf8ByteSize ≤ maxOffset) (n : Nat) (hs : At source s i) :
    DrawsTo source (nth n s) (left (tokens source) i)[n]? (ahead (tokens source) i (n + 1)) := by
  -- On the number of tokens to pass; at the end the iterator stays where it is.
  induction n generalizing s i with
  | zero =>
    cases hleft : left (tokens source) i with
    | nil =>
      rw [Bookmark.ahead_of_left_eq_nil hleft]
      exact draws_next_nil hsize hs hleft
    | cons t ts =>
      obtain ⟨rfl, -, hnext⟩ := draws_next_cons hsize hs hleft
      rw [Bookmark.ahead_succ hleft, Bookmark.ahead_zero]
      exact hnext
  | succ n ih =>
    rw [nth_succ_eq]
    cases hleft : left (tokens source) i with
    | nil =>
      rw [Bookmark.ahead_of_left_eq_nil hleft]
      exact (draws_next_nil hsize hs hleft).finish fun _ => rfl
    | cons t ts =>
      obtain ⟨rfl, hle, hnext⟩ := draws_next_cons hsize hs hleft
      rw [Bookmark.ahead_succ hleft, List.getElem?_cons_succ]
      exact hnext.bind hle (Bookmark.le_ahead hle _) fun s' hs' => ih hs'

/-- Taking tokens, by induction on their number. -/
theorem draws_take (hsize : source.utf8ByteSize ≤ maxOffset) (n : Nat) (hs : At source s i) :
    DrawsTo source (take n s) ((left (tokens source) i).take n) (ahead (tokens source) i n) := by
  -- On the number of tokens to take.
  induction n generalizing s i with
  | zero =>
    rw [Bookmark.ahead_zero]
    exact DrawsTo.done [] hs
  | succ n ih =>
    rw [take_succ_eq]
    cases hleft : left (tokens source) i with
    | nil =>
      rw [Bookmark.ahead_of_left_eq_nil hleft]
      exact (draws_next_nil hsize hs hleft).finish fun _ => rfl
    | cons t ts =>
      obtain ⟨rfl, hle, hnext⟩ := draws_next_cons hsize hs hleft
      rw [Bookmark.ahead_succ hleft, List.take_succ_cons]
      exact hnext.bind hle (Bookmark.le_ahead hle _) fun s' hs' => (ih hs').map (t :: ·)

/-- Collecting takes all that is left, by induction on it. -/
theorem draws_collect (hsize : source.utf8ByteSize ≤ maxOffset) (hs : At source s i) :
    DrawsTo source s.collect (left (tokens source) i) (tokens source).length := by
  -- The recursion goes down on what is left.
  induction hleft : left (tokens source) i generalizing s i with
  | nil =>
    rw [collect_eq]
    exact (draws_next_nil hsize hs hleft).finish fun _ => rfl
  | cons t ts ih =>
    obtain ⟨rfl, hle, hnext⟩ := draws_next_cons hsize hs hleft
    rw [collect_eq]
    exact hnext.bind hle hle fun s' hs' => (ih hs' rfl).map (t :: ·)

/-- What a new scanner yields up to the end are all tokens but the end token. -/
theorem collect_ofSource (hsize : source.utf8ByteSize ≤ maxOffset) :
    (ofSource source).collect.map (·.1) = (tokenize source).map (·.filter (!·.isEof)) := by
  have hdraw := draws_collect hsize (at_ofSource source)
  rw [DrawsTo, taken_length_tokens] at hdraw
  rw [tokenize_eq hsize]
  by_cases hlt : lineFeeds source.toList < maxLine
  · obtain ⟨s, hs, -⟩ := hdraw.ok hlt
    rw [hs, if_pos hlt, Fault.map_ok, Fault.map_ok, Bookmark.left, List.drop_zero]
  · rw [hdraw.fault (Nat.not_lt.1 hlt), if_neg hlt, Fault.map_error, Fault.map_error]

/-- Finding passes what has another kind, by induction on what is left. -/
theorem draws_find (hsize : source.utf8ByteSize ≤ maxOffset) (kind : Kind) (hs : At source s i) :
    DrawsTo source (find kind s) ((left (tokens source) i).find? (·.kind = kind))
      (ahead (tokens source) i ((left (tokens source) i).findIdx (·.kind = kind) + 1)) := by
  -- Again on what is left; the position of the token found counts from the index.
  induction hleft : left (tokens source) i generalizing s i with
  | nil =>
    rw [find_eq, Bookmark.ahead_of_left_eq_nil hleft]
    exact (draws_next_nil hsize hs hleft).finish fun _ => rfl
  | cons t ts ih =>
    obtain ⟨rfl, hle, hnext⟩ := draws_next_cons hsize hs hleft
    rw [find_eq, Bookmark.ahead_succ hleft]
    refine hnext.bind hle (Bookmark.le_ahead hle _) ?_
    intro s' hs'
    -- The token drawn is found, or the search goes on at the index behind it.
    by_cases hkind : t.kind = kind
    · simp only [List.find?_cons, List.findIdx_cons, hkind, decide_true, cond_true, if_true,
        Bookmark.ahead_zero]
      exact DrawsTo.done _ hs'
    · simp only [List.find?_cons, List.findIdx_cons, hkind, decide_false, cond_false, if_false]
      exact ih hs' rfl

/-! ## Sessions -/

namespace Session

/-- A session stands at the indices of a bookmark. -/
structure Follows (source : String) (s : Session) (b : Bookmark) : Prop where
  scanner : At source s.scanner b.index
  saved : At source s.saved b.saved

/-- A step answers what a bookmark does and follows it, unless the lines up to the bookmark's new
    index pass the limit. -/
structure Replays (source : String) (result : Except Fault (Answer × Session))
    (out : Answer × Bookmark) : Prop where
  ok : lineFeeds (taken source.toList out.2.index) < maxLine →
    ∃ s, result = .ok (out.1, s) ∧ Follows source s out.2
  fault : maxLine ≤ lineFeeds (taken source.toList out.2.index) → result = .error .lineOverflow

variable {s : Session} {b : Bookmark}

theorem follows_ofSource (source : String) : Follows source (ofSource source) ⟨0, 0⟩ :=
  ⟨at_ofSource source, at_ofSource source⟩

/-- A draw replays what it answers at the index that it leaves the scanner at. -/
theorem replays_of_drawsTo {α : Type} {draw : Except Fault (α × Scanner)} {a : α} {j : Nat}
    (hs : Follows source s b) (hj : j ≤ (tokens source).length) (answer : α → Answer)
    (hdraw : DrawsTo source draw a j) :
    Replays source (s.drawn answer draw) (answer a, { b with index := j }) := by
  constructor
  · intro hlt
    obtain ⟨scanner, rfl, hscanner⟩ := hdraw.ok hlt
    exact ⟨{ s with scanner }, rfl, ⟨hscanner, hj, hlt⟩, hs.saved⟩
  · intro hle
    rw [drawn, hdraw.fault hle, Fault.map_error]

/-- What reads nothing replays a bookmark that a session follows. -/
theorem replays_of_follows {s' : Session} {b' : Bookmark} (answer : Answer)
    (h : Follows source s' b') : Replays source (.ok (answer, s')) (answer, b') :=
  ⟨fun _ => ⟨s', rfl, h⟩, fun hle => absurd h.scanner.lineFeeds_lt (Nat.not_lt.2 hle)⟩

/-- One step of a session replays one step of its bookmark. -/
theorem replays_step (hsize : source.utf8ByteSize ≤ maxOffset) (hs : Follows source s b)
    (x : Step) : Replays source (s.step x) (b.step source (tokens source) x) := by
  have hi := hs.scanner.index_le
  -- Steps that draw go by the lemma on their draw; the others read nothing.
  cases x with
  | scan => exact replays_of_drawsTo hs (Nat.min_le_right _ _) _ (draws_scan_at hsize hs.scanner)
  | next => exact replays_of_drawsTo hs (Nat.min_le_right _ _) _ (draws_next_at hsize hs.scanner)
  | nth n => exact replays_of_drawsTo hs (Bookmark.ahead_le hi _) _ (draws_nth hsize n hs.scanner)
  | take n => exact replays_of_drawsTo hs (Bookmark.ahead_le hi _) _ (draws_take hsize n hs.scanner)
  | collect => exact replays_of_drawsTo hs (Nat.le_refl _) _ (draws_collect hsize hs.scanner)
  | count =>
    exact replays_of_drawsTo hs (Nat.le_refl _) (fun ts => .number ts.length)
      (draws_collect hsize hs.scanner)
  | last =>
    exact replays_of_drawsTo hs (Nat.le_refl _) (fun ts => .token? ts.getLast?)
      (draws_collect hsize hs.scanner)
  | find kind =>
    exact replays_of_drawsTo hs (Bookmark.ahead_le hi _) _ (draws_find hsize kind hs.scanner)
  | source =>
    have hsource : s.scanner.source = source := by rw [Scanner.source, hs.scanner.cursor_eq]; rfl
    rw [step, hsource]
    exact replays_of_follows _ hs
  | save => exact replays_of_follows _ ⟨hs.scanner, hs.scanner⟩
  | restore => exact replays_of_follows _ ⟨hs.saved, hs.saved⟩

/-- Only with everything read does a step answer that there is no token. -/
theorem index_of_none (x : Step)
    (h : (b.step source (tokens source) x).1 = .token? none) :
    (b.step source (tokens source) x).2.index = (tokens source).length := by
  cases x with
  | scan | take | collect | count | source | save | restore => cases h
  | next =>
    have heof := isEof_tokenAt source b.index
    by_cases hle : (tokens source).length ≤ b.index + 1
    · exact Nat.min_eq_right hle
    · simp [Bookmark.step, heof, hle] at h
  | nth n =>
    -- Fewer than `n + 1` tokens are left, so all of them are passed over.
    have hnone : (left (tokens source) b.index)[n]? = none := Answer.token?.inj h
    have hle := List.getElem?_eq_none_iff.1 hnone
    exact if_neg (Nat.not_le.2 (Nat.lt_succ_of_le hle))
  | last => rfl
  | find kind =>
    have hnone : (left (tokens source) b.index).find? (·.kind = kind) = none :=
      Answer.token?.inj h
    have hidx : (left (tokens source) b.index).findIdx (·.kind = kind) =
        (left (tokens source) b.index).length := by
      rw [List.findIdx_eq_length]
      exact fun t ht => by simpa using List.find?_eq_none.1 hnone t ht
    refine if_neg ?_
    rw [hidx]
    exact Nat.not_succ_le_self _

/-- An answer and the session after it are those of a bookmark. -/
structure Matches (source : String) (q : Answer × Session) (out : Answer × Bookmark) : Prop where
  answer_eq : q.1 = out.1
  follows : Follows source q.2 out.2
  index_of_none : out.1 = .token? none → out.2.index = (tokens source).length

/-- A run replays that of a bookmark which the lines allow all the way. -/
theorem run_of_lt (hsize : source.utf8ByteSize ≤ maxOffset) (hs : Follows source s b)
    (steps : List Step) (hlines : ∀ out ∈ b.run source (tokens source) steps,
      lineFeeds (taken source.toList out.2.index) < maxLine) :
    ∃ outs, s.run steps = .ok outs ∧
      List.Forall₂ (Matches source) outs (b.run source (tokens source) steps) := by
  induction steps generalizing s b with
  | nil => exact ⟨[], rfl, List.Forall₂.nil⟩
  | cons x steps ih =>
    obtain ⟨hlt, hrest⟩ := List.forall_mem_cons.1 hlines
    -- The first step by the step lemma, the others from where it leads.
    obtain ⟨s', hstep, hs'⟩ := (replays_step hsize hs x).ok hlt
    obtain ⟨outs, hrun, houts⟩ := ih hs' hrest
    have hmatches : Matches source ((b.step source (tokens source) x).1, s')
        (b.step source (tokens source) x) :=
      ⟨rfl, hs', index_of_none x⟩
    refine ⟨_ :: outs, ?_, List.Forall₂.cons hmatches houts⟩
    rw [run, hstep]
    simp only [hrun, Fault.map_ok]

/-- A run stops at the first step of a bookmark that passes the line limit. -/
theorem run_of_le (hsize : source.utf8ByteSize ≤ maxOffset) (hs : Follows source s b)
    (steps : List Step) (hlines : ∃ out ∈ b.run source (tokens source) steps,
      maxLine ≤ lineFeeds (taken source.toList out.2.index)) :
    s.run steps = .error .lineOverflow := by
  induction steps generalizing s b with
  | nil =>
    obtain ⟨out, hout, -⟩ := hlines
    cases hout
  | cons x steps ih =>
    -- The step that passes the limit is the first one or one of the others.
    by_cases hlt : lineFeeds (taken source.toList (b.step source (tokens source) x).2.index) <
        maxLine
    · obtain ⟨s', hstep, hs'⟩ := (replays_step hsize hs x).ok hlt
      have hrest : ∃ out ∈ (b.step source (tokens source) x).2.run source (tokens source) steps,
          maxLine ≤ lineFeeds (taken source.toList out.2.index) := by
        obtain ⟨out, hout, hle⟩ := hlines
        rcases List.mem_cons.1 hout with rfl | hout
        · exact absurd hlt (Nat.not_lt.2 hle)
        · exact ⟨out, hout, hle⟩
      rw [run, hstep]
      simp only [ih hs' hrest, Fault.map_error]
    · rw [run, (replays_step hsize hs x).fault (Nat.not_lt.1 hlt)]

/-- The cursor of a session that follows a bookmark stands where the span before the index ends. -/
theorem Follows.position_eq (hs : Follows source s b) :
    s.scanner.position = offset (tokens source) b.index := by
  rw [Scanner.position, hs.scanner.cursor_eq, after_position, byteSize_taken hs.scanner.index_le]

theorem offset_length_tokens (source : String) :
    offset (tokens source) (tokens source).length = source.utf8ByteSize := by
  rw [← byteSize_taken (Nat.le_refl _), taken_length_tokens, byteSize_toList]

theorem Matches.position_eq {q : Answer × Session} {out : Answer × Bookmark}
    (h : Matches source q out) (hnone : q.1 = .token? none) :
    q.2.scanner.position = source.utf8ByteSize := by
  rw [h.answer_eq] at hnone
  rw [h.follows.position_eq, h.index_of_none hnone, offset_length_tokens]

/-- Every run of a session is that of a bookmark in the list of all tokens, at the position where
    the span before its index ends. -/
theorem run_replays {source : String} (h : Scannable source) :
    ∃ ts, tokenize source = .ok ts ∧ ∀ steps, ∃ outs, (ofSource source).run steps = .ok outs ∧
      (outs.map fun q => (q.1, q.2.scanner.position)) =
        ((Bookmark.run source ts ⟨0, 0⟩ steps).map fun out => (out.1, offset ts out.2.index)) ∧
      ∀ q ∈ outs, q.1 = .token? none → q.2.scanner.position = source.utf8ByteSize := by
  refine ⟨tokens source, tokenize_of_scannable h, ?_⟩
  intro steps
  -- Whatever is read is a beginning of the source, so its lines are within the limit.
  have hlines : ∀ out ∈ Bookmark.run source (tokens source) ⟨0, 0⟩ steps,
      lineFeeds (taken source.toList out.2.index) < maxLine := by
    intro out _
    have hle := lineFeeds_le_of_isPrefix (taken_isPrefix_self source.toList out.2.index)
    exact Nat.lt_of_le_of_lt hle h.lineFeeds_lt
  obtain ⟨outs, hrun, houts⟩ :=
    run_of_lt (size_le_maxOffset h.size_le) (follows_ofSource source) steps hlines
  refine ⟨outs, hrun, ?_, ?_⟩
  · -- Answers and positions agree one by one.
    rw [← List.forall₂_eq_eq_eq, List.forall₂_map_left_iff, List.forall₂_map_right_iff]
    refine houts.imp ?_
    intro q out hq
    rw [hq.answer_eq, hq.follows.position_eq]
  · have hboth := houts.imp fun q out hq => And.intro hq.position_eq hq
    exact ((List.forall₂_and_left _ _).1 hboth).1

theorem run_replays_restore :
    Scannable "a b" ∧ ∃ outs,
      (ofSource "a b").run [.take 1, .save, .find .number, .restore, .next] = .ok outs ∧
      (outs.map fun q => (q.1, q.2.scanner.position)) =
        [(.tokens [⟨.identifier, "a", 1, ⟨0, 1⟩⟩], 1), (.done, 1), (.token? none, 3), (.done, 1),
          (.token? (some ⟨.identifier, "b", 1, ⟨2, 3⟩⟩), 3)] := by
  have h : Scannable "a b" := ⟨by decide, by decide⟩
  obtain ⟨ts, hts, hrun⟩ := run_replays h
  have htokens : tokenize "a b" =
      .ok [⟨.identifier, "a", 1, ⟨0, 1⟩⟩, ⟨.identifier, "b", 1, ⟨2, 3⟩⟩,
        ⟨.eof, "", 1, ⟨3, 3⟩⟩] := by
    decide +kernel
  rw [hts, Except.ok.injEq] at htokens
  obtain ⟨outs, houts, hmap, -⟩ := hrun [.take 1, .save, .find .number, .restore, .next]
  refine ⟨h, outs, houts, ?_⟩
  rw [hmap, htokens]
  decide

end Session

end Scanner

end Lexis

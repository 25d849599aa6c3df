/-
  Lexis.Proofs.Scan.Progress

  Every loop of the scanner ends, and a source is read once.

  A loop that is entered with some text unread goes round until it is left, each time over some of
  that text; so there are no more rounds than characters. All reads of the loop over the tokens
  together are the characters of the source, each at its place and none twice, and there is one
  token for each round, of which the one that leaves the loop is the end token.
-/

import Lexis.Proofs.Cursor.Split
import Lexis.Proofs.Scan.Lines
import Lexis.Proofs.Scan.Tiling
import Lexis.Proofs.Scan.Traced

namespace Lexis

open Lexis.Text Lexis.Cursor

/-- The characters of a text that starts at offset `n`, each at its place. -/
def placed (n : Nat) : List Char → List Read
  | [] => []
  | x :: xs => ⟨n, x⟩ :: placed (n + x.utf8Size) xs

theorem length_placed (n : Nat) (cs : List Char) : (placed n cs).length = cs.length := by
  induction cs generalizing n with
  | nil => rfl
  | cons x xs ih => rw [placed, List.length_cons, ih, List.length_cons]

theorem placed_append (n : Nat) (cs ds : List Char) :
    placed n (cs ++ ds) = placed n cs ++ placed (n + byteSize cs) ds := by
  induction cs generalizing n with
  | nil => rfl
  | cons x xs ih => rw [List.cons_append, placed, ih, placed, byteSize_cons, Nat.add_assoc]; rfl

variable {source : String} {u r : List Char}

/-- Reads go over the text from the cursor on, character by character. -/
theorem Cursor.Moves.exists_placed {c d : Cursor} {reads : List Read} (hsource : Scannable source)
    (htext : source.toList = u ++ r) (hc : c = after source u) (h : c.Moves reads d) :
    ∃ v w, r = v ++ w ∧ reads = placed (byteSize u) v ∧ d = after source (u ++ v) := by
  -- On the characters read; a cursor that moves is not at the end.
  induction h generalizing u r with
  | refl => exact ⟨[], r, rfl, rfl, by rw [hc, List.append_nil]⟩
  | step hend hd _ ih =>
    subst hc
    rw [isAtEnd_after (hsource.parts htext)] at hend
    cases r with
    | nil => cases hend
    | cons y r =>
      have htext' : source.toList = (u ++ [y]) ++ r := htext.trans (List.append_cons u y r)
      rw [advance_after (hsource.parts htext) (hsource.lineFeeds_lt_of_eq htext),
        hsource.reach_eq htext'] at hd
      cases hd
      obtain ⟨v, w, rfl, rfl, rfl⟩ := ih htext' rfl
      refine ⟨_ :: v, w, rfl, ?_, by rw [List.append_assoc]; rfl⟩
      rw [placed, byteSize_append]
      rfl

namespace Loop

variable {σ β : Type} {l : Loop σ β} {s : σ} {b : β}

/-- The loop is left, with what `result` yields; each round that goes on reads something, and what
    all of them read is the beginning of what was unread. -/
def EndsWith (l : Loop σ β) (s : σ) (unread : List Read) (result : Except Fault β) : Prop :=
  ∃ rounds last b, result = .ok b ∧ l.Ends s rounds last b ∧ (∀ reads ∈ rounds, reads ≠ []) ∧
    rounds.flatten ++ last <+: unread ∧ rounds.length ≤ unread.length

/-- A loop that is entered at a place of the source and yields something is left in this way. -/
theorem endsWith_of_run (hsource : Scannable source) (htext : source.toList = u ++ r)
    (hs : l.start s = after source u) (hrun : (l.run s).result = .ok b) :
    l.EndsWith s (placed (byteSize u) r) (.ok b) := by
  obtain ⟨rounds, last, hends, -⟩ := exists_ends hrun
  obtain ⟨v, w, rfl, hreads, -⟩ := hends.moves.exists_placed hsource htext hs
  have hprefix : rounds.flatten ++ last <+: placed (byteSize u) (v ++ w) := by
    rw [hreads, placed_append]
    exact List.prefix_append _ _
  exact ⟨rounds, last, b, rfl, hends, hends.ne_nil, hprefix,
    Nat.le_trans hends.length_le hprefix.length_le⟩

end Loop

namespace Traced

/-! ## The loops of the scanner -/

theorem endsWith_whileLoop (hsource : Scannable source) (htext : source.toList = u ++ r)
    (p : Char → Bool) (hp : p endMark = false) :
    (whileLoop p hp).EndsWith (after source u) (placed (byteSize u) r)
      ((after source u).skipWhile p hp) := by
  have hskip : (after source u).skipWhile p hp = .ok (after source (u ++ r.takeWhile p)) := by
    rw [skipWhile_after hp (hsource.parts htext) (hsource.lineFeeds_lt_of_eq htext)]
    apply hsource.reach_eq (r := r.dropWhile p)
    rw [List.append_assoc, List.takeWhile_append_dropWhile, htext]
  rw [hskip]
  exact Loop.endsWith_of_run hsource htext rfl (by rw [result_whileLoop, hskip])

theorem endsWith_untilLoop (hsource : Scannable source) (htext : source.toList = u ++ r)
    (x : Char) :
    (untilLoop x).EndsWith (after source u) (placed (byteSize u) r)
      ((after source u).skipUntil x) := by
  have hskip : (after source u).skipUntil x = .ok (after source (u ++ r.takeWhile (· ≠ x))) := by
    rw [skipUntil_after x (hsource.parts htext) (hsource.lineFeeds_lt_of_eq htext)]
    apply hsource.reach_eq (r := r.dropWhile (· ≠ x))
    rw [List.append_assoc, List.takeWhile_append_dropWhile, htext]
  rw [hskip]
  exact Loop.endsWith_of_run hsource htext rfl (by rw [result_untilLoop, hskip])

/-- The loop over trivia reads the trivia in front and ends behind it. -/
theorem endsWith_triviaLoop (hsource : Scannable source) (htext : source.toList = u ++ r) :
    triviaLoop.EndsWith (after source u) (placed (byteSize u) r) (after source u).skipTrivia := by
  have hskip : (after source u).skipTrivia =
      .ok (after source (u ++ Trivia.leading false r)) := by
    rw [skipTrivia_after (hsource.parts htext) (hsource.lineFeeds_lt_of_eq htext)]
    apply hsource.reach_eq (r := Trivia.rest r)
    rw [List.append_assoc, Trivia.leading_append_rest, htext]
  rw [hskip]
  exact Loop.endsWith_of_run hsource htext rfl (by rw [result_triviaLoop, hskip])

/-- All tokens that are left can be drawn, and then the whole source has been read. -/
theorem exists_drain_eq (hsource : Scannable source) (htext : source.toList = u ++ r) {s : Scanner}
    (hs : s.cursor = after source u) :
    ∃ ts s', s.drain = .ok (ts, s') ∧ s'.cursor = after source source.toList := by
  have hdraws := Scanner.draws_drain hs (hsource.parts htext) (hsource.lineFeeds_lt_of_eq htext)
  rw [← htext] at hdraws
  obtain ⟨s', hdrain, hs'⟩ := hdraws.ok hsource.lineFeeds_lt
  exact ⟨_, s', hdrain, hs'⟩

theorem endsWith_tokensLoop (hsource : Scannable source) (htext : source.toList = u ++ r)
    {s : Scanner} (hs : s.cursor = after source u) (ts : List Token) :
    tokensLoop.EndsWith (s, ts) (placed (byteSize u) r)
      (s.drain.map fun q => (ts ++ q.1, q.2)) := by
  obtain ⟨us, _, hdrain, -⟩ := exists_drain_eq hsource htext hs
  rw [hdrain, Fault.map_ok]
  exact Loop.endsWith_of_run hsource htext hs (by rw [result_tokensLoop, hdrain, Fault.map_ok])

/-! ## One run over a source -/

/-- A round that goes on adds a token, and the one that leaves adds the end token. -/
theorem exists_of_ends_tokensLoop {s : Scanner × List Token} {q : List Token × Scanner}
    {rounds : List (List Read)} {last : List Read} (h : tokensLoop.Ends s rounds last q) :
    ∃ before t, q.1 = s.2 ++ before ++ [t] ∧ before.length = rounds.length ∧
      (∀ b ∈ before, b.isEof = false) ∧ t.isEof = true := by
  -- Only the last round answers the end token, so the rounds before it are the tokens before it.
  induction h with
  | leave h =>
    obtain ⟨⟨t, s'⟩, -, h⟩ := Fault.bind_eq_ok.1 ((result_bind _ _).symm.trans h)
    by_cases heof : t.isEof
    · rw [if_pos heof] at h
      cases h
      exact ⟨[], t, by rw [List.append_nil], rfl, List.forall_mem_nil _, heof⟩
    · rw [if_neg heof] at h
      cases h
  | again h _ ih =>
    obtain ⟨⟨t, s'⟩, -, h⟩ := Fault.bind_eq_ok.1 ((result_bind _ _).symm.trans h)
    by_cases heof : t.isEof
    · rw [if_pos heof] at h
      cases h
    · rw [if_neg heof] at h
      cases h
      obtain ⟨before, e, hq, hlength, hbefore, he⟩ := ih
      refine ⟨t :: before, e, ?_, ?_, ?_, he⟩
      · rw [hq]
        simp
      · rw [List.length_cons, List.length_cons, hlength]
      · exact List.forall_mem_cons.2 ⟨by simpa using heof, hbefore⟩

/-- One run over a source reads each of its characters once, in order. -/
theorem exists_tokenize_eq (hsource : Scannable source) :
    ∃ before t, Lexis.tokenize source = .ok (before ++ [t]) ∧
      tokenize source = ⟨placed 0 source.toList, .ok (before ++ [t])⟩ ∧
      before.length ≤ source.toList.length ∧ (∀ b ∈ before, b.isEof = false) ∧ t.isEof = true := by
  have htext : source.toList = [] ++ source.toList := rfl
  obtain ⟨ts, s', hdrain, hs'⟩ := exists_drain_eq (s := Scanner.ofSource source) hsource htext rfl
  have hrun : (tokensLoop.run (Scanner.ofSource source, [])).result = .ok (ts, s') := by
    rw [result_tokensLoop, hdrain]
    rfl
  obtain ⟨rounds, last, hends, hreads⟩ := Loop.exists_ends hrun
  obtain ⟨before, t, hts, hlength, hbefore, ht⟩ := exists_of_ends_tokensLoop hends
  obtain ⟨v, w, hvw, hplaced, hstop⟩ := hends.moves.exists_placed hsource htext rfl
  -- The run stops at the end of the source, so what it has read is all of it.
  have hv : source.toList = v := by
    refine eq_of_append_eq_append (r := []) ((List.append_nil _).trans hvw) ?_
    exact congrArg position (hs'.symm.trans hstop)
  have hall : (tokensLoop.run (Scanner.ofSource source, [])).reads = placed 0 source.toList := by
    rw [hreads, hplaced, hv]
    rfl
  have hts' : ts = before ++ [t] := hts
  have htokenize : (tokenize source).result = .ok (before ++ [t]) := by
    unfold tokenize
    rw [result_bind, hrun, ← hts']
    rfl
  refine ⟨before, t, ?_, ?_, ?_, hbefore, ht⟩
  · rw [← result_tokenize, htokenize]
  · refine Traced.ext ?_ htokenize
    unfold tokenize
    rw [reads_bind hrun, hall]
    exact List.append_nil _
  · have hle := hends.length_le
    rw [hlength, ← length_placed 0, ← hall, hreads]
    exact hle

/-- Every loop of the scanner that is entered between `u` and `r` is left again. -/
structure LoopsEnd (source : String) (u r : List Char) : Prop where
  trivia : triviaLoop.EndsWith (after source u) (placed (byteSize u) r) (after source u).skipTrivia
  comment : (untilLoop '\n').EndsWith (after source u) (placed (byteSize u) r)
    ((after source u).skipUntil '\n')
  digits : (whileLoop isDigit isDigit_endMark).EndsWith (after source u) (placed (byteSize u) r)
    ((after source u).skipWhile isDigit isDigit_endMark)
  word : (whileLoop isWordPart isWordPart_endMark).EndsWith (after source u) (placed (byteSize u) r)
    ((after source u).skipWhile isWordPart isWordPart_endMark)
  string : (untilLoop '"').EndsWith (after source u) (placed (byteSize u) r)
    ((after source u).skipUntil '"')
  tokens : ∀ (s : Scanner) (ts : List Token), s.cursor = after source u →
    tokensLoop.EndsWith (s, ts) (placed (byteSize u) r) (s.drain.map fun q => (ts ++ q.1, q.2))

/-- All four loops end wherever they are begun. -/
theorem loopsEnd (hsource : Scannable source) (htext : source.toList = u ++ r) :
    LoopsEnd source u r where
  trivia := endsWith_triviaLoop hsource htext
  comment := endsWith_untilLoop hsource htext '\n'
  digits := endsWith_whileLoop hsource htext isDigit _
  word := endsWith_whileLoop hsource htext isWordPart _
  string := endsWith_untilLoop hsource htext '"'
  tokens := fun _ ts hs => endsWith_tokensLoop hsource htext hs ts

/-- Every session stands somewhere in its source; wherever that is, the loops of the scanner end,
    over no more rounds than there are characters. One run over the source reads each character
    once and yields no more tokens than that, and the end token. -/
theorem scan_ends {source : String} (hsource : Scannable source) :
    (∀ s, Scanner.Session.Reached source s →
      ∃ u r, source.toList = u ++ r ∧ s.scanner.cursor = after source u) ∧
    (∀ u r, source.toList = u ++ r → LoopsEnd source u r) ∧
    ∃ before t, Lexis.tokenize source = .ok (before ++ [t]) ∧
      tokenize source = ⟨placed 0 source.toList, .ok (before ++ [t])⟩ ∧
      before.length ≤ source.toList.length ∧ (∀ b ∈ before, b.isEof = false) ∧ t.isEof = true := by
  refine ⟨?_, fun _ _ => loopsEnd hsource, exists_tokenize_eq hsource⟩
  intro s hs
  obtain ⟨b, hb⟩ := Scanner.Session.exists_follows_of_reached hsource hs
  obtain ⟨r, hr⟩ := taken_isPrefix_self source.toList b.index
  exact ⟨_, r, hr.symm, hb.scanner.cursor_eq⟩

/-- Nothing stops before a mark of the end that stands in the source, neither within a comment nor
    outside of one. -/
theorem scan_ends_endMark :
    Scannable "\x00//\x00\n1" ∧ LoopsEnd "\x00//\x00\n1" ['\x00'] ['/', '/', '\x00', '\n', '1'] ∧
      (tokenize "\x00//\x00\n1").reads =
        [⟨0, '\x00'⟩, ⟨1, '/'⟩, ⟨2, '/'⟩, ⟨3, '\x00'⟩, ⟨4, '\n'⟩, ⟨5, '1'⟩] ∧
      ∃ ts, Lexis.tokenize "\x00//\x00\n1" = .ok ts ∧ ts.length ≤ 7 := by
  have hsource : Scannable "\x00//\x00\n1" := ⟨by decide, by decide⟩
  obtain ⟨-, hloops, before, t, hrun, htraced, hlength, -⟩ := scan_ends hsource
  refine ⟨hsource, hloops _ _ (by decide), ?_, before ++ [t], hrun, ?_⟩
  · rw [htraced]
    show placed 0 _ = _
    decide +kernel
  · have hle : before.length ≤ 6 := hlength
    rw [List.length_append, List.length_singleton]
    omega

end Traced

end Lexis

/-
  Lexis.Proofs.Json.Reader

  A reader of JSON texts, which reads the texts of the grammar and no others.

  The reader descends into arrays and objects. Each step into a bracket and each part of a list
  takes one of a number of steps it is given, and the length of a text is more than enough of them.
-/

import Lexis.Proofs.Json.Leaves

namespace Lexis.Json

open Lexis.Text
open Reader (done block behind after filterMap seq orElse)

variable {cs r t w : List Char} {v : Value} {κ : Type} {S : List Char → Prop}

/-! ## Definitions -/

/-- Reads space, which may be none. -/
def readSpace? : Reader Unit := fun cs =>
  some ((), skipSpace cs)

/-- Reads a key in front of its value, with the colon. -/
def readKey? : Reader String :=
  filterMap (seq (seq readSpace? readString?) (seq readSpace? (after ':' readSpace?)))
    fun p => some p.1.2

/-- Reads one word that is a value. -/
def literal (word : List Char) (v : Value) : Reader Value :=
  filterMap (block word.length fun cs => cs == word) fun _ => some v

/-- Reads one of the three words. -/
def readWord? : Reader Value :=
  orElse (literal ['n', 'u', 'l', 'l'] .null) <|
    orElse (literal ['t', 'r', 'u', 'e'] (.bool true))
      (literal ['f', 'a', 'l', 's', 'e'] (.bool false))

/-- Reads parts up to a closing bracket, at most so many. -/
def readParts? (front : Reader κ) (value : Reader Value) (close : Char) :
    Nat → Reader (List (κ × Value))
  | 0 => fun _ => none
  | n + 1 =>
    filterMap (seq (seq (seq front value) readSpace?)
      (behind ',' (readParts? front value close n) (after close (done []))))
      fun p => some (p.1.1 :: p.2)

/-- Reads the inside of brackets with the closing one. -/
def readList? (front : Reader κ) (value : Reader Value) (close : Char) (n : Nat) :
    Reader (List (κ × Value)) :=
  orElse (filterMap (seq readSpace? (after close (done ()))) fun _ => some [])
    (readParts? front value close n)

/-- Reads a value in at most so many steps. -/
def readValue? : Nat → Reader Value
  | 0 => fun _ => none
  | n + 1 =>
    behind '"' (filterMap readChars? fun cs => some (.string (String.ofList cs))) <|
      behind '[' (filterMap (readList? readSpace? (readValue? n) ']' n)
        fun ps => some (.array (ps.map (·.2)))) <|
        behind '\x7b' (filterMap (readList? readKey? (readValue? n) '\x7d' n)
          fun ps => some (.object ps)) <|
          orElse readWord? (filterMap readNumber? fun q => some (.number q))

/-- Reads a whole text. -/
def read? (cs : List Char) : Option Value :=
  (seq (seq readSpace? (readValue? cs.length)) readSpace? cs).bind fun p =>
    if p.2 = [] then some p.1.1.2 else none

/-! ## Space, keys and words -/

theorem reads_space : Reads readSpace? (fun t _ => IsSpace t) (Avoids isSpace) where
  sound := by
    intro cs u r hread
    cases hread
    obtain ⟨w, hw, hcs⟩ := exists_eq_append_skipSpace cs
    exact ⟨w, hcs, hw⟩
  complete := by
    intro t u r ht hr
    rw [readSpace?, skipSpace_append ht, skipSpace, hr.dropWhile]

/-- A string does not begin with space. -/
theorem avoids_isSpace_of_stringText {s : String} (h : StringText t s) (r : List Char) :
    Avoids isSpace (t ++ r) := by
  obtain ⟨-⟩ := h
  exact Avoids.cons (by decide) _

/-- The reader of a key with the colon behind it. -/
theorem reads_key : Reads readKey? KeyText (Avoids isSpace) := by
  have hquoted : Reads (seq readSpace? readString?) _ fun _ => True :=
    reads_space.seq reads_string fun hs _ => avoids_isSpace_of_stringText hs _
  have hcolon : Reads (seq readSpace? (after ':' readSpace?)) _ (Avoids isSpace) :=
    reads_space.seq (reads_space.after ':') fun ⟨_, ht, _⟩ _ => ht ▸ Avoids.cons (by decide) _
  -- Space, string, space, colon, space: regrouped as the grammar groups them.
  refine ((hquoted.seq hcolon fun _ _ => trivial).filterMap _).congr fun t s => ?_
  constructor
  · rintro ⟨p, ⟨_, _, rfl, ⟨w, q, rfl, hw, hs⟩, ⟨w', _, rfl, hw', w'', rfl, hw''⟩⟩, heq⟩
    rw [← Option.some.inj heq, ← List.append_assoc]
    exact .colon hw hs hw' hw''
  · rintro ⟨hw, hs, hw', hw''⟩
    exact ⟨(((), _), ((), ())), ⟨_, _, by rw [List.append_assoc], ⟨_, _, rfl, hw, hs⟩,
      ⟨_, _, rfl, hw', _, rfl, hw''⟩⟩, rfl⟩

theorem reads_literal (word : List Char) (v : Value) :
    Reads (literal word v) (fun t u => t = word ∧ u = v) S := by
  refine ((Reads.block _ _).filterMap _).congr fun t u => ?_
  constructor
  · rintro ⟨cs, ⟨rfl, -, hword⟩, hu⟩
    exact ⟨eq_of_beq hword, (Option.some.inj hu).symm⟩
  · rintro ⟨rfl, rfl⟩
    exact ⟨_, ⟨rfl, rfl, beq_self_eq_true _⟩, rfl⟩

theorem reads_word : Reads readWord? (fun t v => (t, v) ∈ words) S := by
  refine ((reads_literal _ _).orElse ((reads_literal _ _).orElse (reads_literal _ _) ?_) ?_).congr
    fun t v => ?_
  · rintro t v r ⟨rfl, rfl⟩ -
    rfl
  · rintro t v r (⟨rfl, rfl⟩ | ⟨rfl, rfl⟩) -
    · rfl
    · rfl
  · simp [words]

/-! ## Only texts of the grammar are read -/

/-- Parts of a list, each with what may stand in front of it. -/
structure AreParts (F : List Char → κ → Prop) (ps : List (Part κ)) : Prop where
  ne_nil : ps ≠ []
  front : ∀ p ∈ ps, F p.front p.key
  behind : ∀ p ∈ ps, IsSpace p.behind
  denotes : ∀ p ∈ ps, Denotes p.text p.value

namespace AreParts

variable {F : List Char → κ → Prop} {p : Part κ} {ps : List (Part κ)}

theorem singleton (hfront : F p.front p.key) (hbehind : IsSpace p.behind)
    (hdenotes : Denotes p.text p.value) : AreParts F [p] where
  ne_nil := List.cons_ne_nil p []
  front := List.forall_mem_singleton.2 hfront
  behind := List.forall_mem_singleton.2 hbehind
  denotes := List.forall_mem_singleton.2 hdenotes

theorem cons (hfront : F p.front p.key) (hbehind : IsSpace p.behind)
    (hdenotes : Denotes p.text p.value) (hps : AreParts F ps) : AreParts F (p :: ps) where
  ne_nil := List.cons_ne_nil p ps
  front := List.forall_mem_cons.2 ⟨hfront, hps.front⟩
  behind := List.forall_mem_cons.2 ⟨hbehind, hps.behind⟩
  denotes := List.forall_mem_cons.2 ⟨hdenotes, hps.denotes⟩

end AreParts

/-- A place where no text stops: what is read to there says only which texts are read. -/
def Nowhere (_ : List Char) : Prop :=
  False

/-- A reader that is right somewhere is right as far as it is sound. -/
theorem Reads.nowhere {α : Type} {read : Reader α} {P Q : List Char → α → Prop}
    (h : Reads read P S) (hsound : ∀ {t a}, P t a → Q t a) : Reads read Q Nowhere where
  sound := by
    intro cs a r hread
    obtain ⟨t, hcs, ht⟩ := h.sound hread
    exact ⟨t, hcs, hsound ht⟩
  complete := fun _ hr => hr.elim

variable {front : Reader κ} {value : Reader Value} {close : Char} {F : List Char → κ → Prop}

theorem reads_none {α : Type} (P : List Char → α → Prop) : Reads (fun _ => none) P Nowhere where
  sound := by
    intro cs a r hread
    cases hread
  complete := fun _ hr => hr.elim

/-- The text of a list behind its opening bracket. -/
def PartsText (F : List Char → κ → Prop) (close : Char) (t : List Char) (ps : List (κ × Value)) :
    Prop :=
  ∃ qs : List (Part κ), AreParts F qs ∧ ps = qs.map (fun q => (q.key, q.value)) ∧
    t = joined qs ++ [close]

/-- The reader of parts is sound, by induction on its rounds. -/
theorem readParts?_sound (hfront : Reads front F Nowhere) (hvalue : Reads value Denotes Nowhere)
    (n : Nat) : Reads (readParts? front value close n) (PartsText F close) Nowhere := by
  -- On the rounds that are left; each reads a part and a comma, or the closing character.
  induction n with
  | zero => exact reads_none _
  | succ n ih =>
    have hspace : Reads readSpace? (fun t _ => IsSpace t) Nowhere := reads_space.nowhere id
    have hpart := (hfront.seq hvalue fun _ h => h).seq hspace fun _ h => h
    have hrest := ih.behind (c := ',') ((Reads.done []).after close) fun _ h => h.elim
    refine ((hpart.seq hrest fun _ h => h).filterMap _).nowhere ?_
    rintro t ps ⟨⟨⟨⟨k, v⟩, _⟩, qs⟩, ⟨_, u, rfl, ⟨_, w, rfl, ⟨f, x, rfl, hf, hx⟩, hw⟩, hu⟩, hps⟩
    rw [← Option.some.inj hps]
    rcases hu with ⟨u, rfl, qs, hqs, rfl, rfl⟩ | ⟨⟨_, rfl, rfl, rfl⟩, -⟩
    · obtain ⟨q, qs, rfl⟩ := List.exists_cons_of_ne_nil hqs.ne_nil
      refine ⟨⟨f, x, w, k, v⟩ :: q :: qs, hqs.cons hf hw hx, rfl, ?_⟩
      simp [joined]
    · exact ⟨[⟨f, x, w, k, v⟩], .singleton hf hw hx, rfl, by simp [joined]⟩

/-- The text behind an opening bracket: parts, or nothing but space. -/
def ListText (F : List Char → κ → Prop) (close : Char) (t : List Char) (ps : List (κ × Value)) :
    Prop :=
  (∃ w, IsSpace w ∧ t = w ++ [close] ∧ ps = []) ∨ PartsText F close t ps

/-- The reader of a list, empty or not, is sound. -/
theorem readList?_sound (hfront : Reads front F Nowhere) (hvalue : Reads value Denotes Nowhere)
    (n : Nat) : Reads (readList? front value close n) (ListText F close) Nowhere := by
  have hspace : Reads readSpace? (fun t _ => IsSpace t) Nowhere := reads_space.nowhere id
  have hempty := (hspace.seq ((Reads.done ()).after close) fun _ h => h).filterMap
    fun _ => some ([] : List (κ × Value))
  refine (hempty.orElse (readParts?_sound hfront hvalue n) fun _ h => h.elim).nowhere ?_
  rintro t ps (⟨_, ⟨w, _, rfl, hw, _, rfl, rfl, -⟩, hps⟩ | h)
  · exact .inl ⟨w, hw, rfl, (Option.some.inj hps).symm⟩
  · exact .inr h

/-- A list in brackets is a text of its array. -/
theorem denotes_of_listText {ps : List (Unit × Value)}
    (h : ListText (fun t _ => IsSpace t) ']' t ps) :
    Denotes ('[' :: t) (.array (ps.map (·.2))) := by
  rcases h with ⟨w, hw, rfl, rfl⟩ | ⟨qs, hqs, rfl, rfl⟩
  · exact .emptyArray hw
  · have harray := Denotes.array hqs.ne_nil hqs.front hqs.behind hqs.denotes
    rwa [List.map_map]

theorem denotes_of_listText_key {ps : List (String × Value)} (h : ListText KeyText '\x7d' t ps) :
    Denotes ('\x7b' :: t) (.object ps) := by
  rcases h with ⟨w, hw, rfl, rfl⟩ | ⟨qs, hqs, rfl, rfl⟩
  · exact .emptyObject hw
  · exact .object hqs.ne_nil hqs.front hqs.behind hqs.denotes

/-- What the reader of values answers is a value of the text it has read. -/
theorem readValue?_sound (n : Nat) : Reads (readValue? n) Denotes Nowhere := by
  induction n with
  | zero => exact reads_none _
  | succ n ih =>
    -- One reader for each first character, and the scalars for all others.
    have hstring : Reads (filterMap readChars? fun cs => some (.string (String.ofList cs)))
        (fun t v => Denotes ('"' :: t) v) Nowhere := by
      refine ((reads_chars (S := Nowhere)).filterMap _).nowhere ?_
      rintro t v ⟨cs, ⟨body, rfl, hbody⟩, hv⟩
      rw [← Option.some.inj hv]
      exact .string (.quoted (by rwa [String.toList_ofList]))
    have harray : Reads (filterMap (readList? readSpace? (readValue? n) ']' n)
        fun ps => some (.array (ps.map (·.2)))) (fun t v => Denotes ('[' :: t) v) Nowhere := by
      refine ((readList?_sound (reads_space.nowhere id) ih n).filterMap _).nowhere ?_
      rintro t v ⟨ps, hps, hv⟩
      rw [← Option.some.inj hv]
      exact denotes_of_listText hps
    have hobject : Reads (filterMap (readList? readKey? (readValue? n) '\x7d' n)
        fun ps => some (.object ps)) (fun t v => Denotes ('\x7b' :: t) v) Nowhere := by
      refine ((readList?_sound (reads_key.nowhere id) ih n).filterMap _).nowhere ?_
      rintro t v ⟨ps, hps, hv⟩
      rw [← Option.some.inj hv]
      exact denotes_of_listText_key hps
    have hscalar : Reads (orElse readWord? (filterMap readNumber? fun q => some (.number q)))
        Denotes Nowhere := by
      refine (reads_word.orElse ((reads_number.nowhere id).filterMap _)
        fun _ h => h.elim).nowhere ?_
      rintro t v (hword | ⟨q, hq, hv⟩)
      · exact .word hword
      · rw [← Option.some.inj hv]
        exact .number hq
    -- The readers are asked in this order, so that each case knows its first character.
    refine (hstring.behind (harray.behind (hobject.behind hscalar fun _ h => h.elim)
      fun _ h => h.elim) fun _ h => h.elim).nowhere ?_
    rintro t v (⟨u, rfl, h⟩ | ⟨⟨u, rfl, h⟩ | ⟨⟨u, rfl, h⟩ | ⟨h, -⟩, -⟩, -⟩)
    · exact h
    · exact h
    · exact h
    · exact h

/-! ## All texts of the grammar are read -/

theorem isNumberPart_of_isSpace {c : Char} (h : isSpace c = true) : isNumberPart c = false := by
  simp only [isSpace, Bool.or_eq_true, beq_iff_eq] at h
  rcases h with ((rfl | rfl) | rfl) | rfl
  · decide
  · decide
  · decide
  · decide

theorem isSpace_of_isDigit {c : Char} (h : isDigit c = true) : isSpace c = false := by
  rw [← Bool.not_eq_true]
  intro hspace
  have hpart := isNumberPart_of_isSpace hspace
  rw [isNumberPart, isFractionPart, h] at hpart
  cases hpart

/-- What a value starts with: no space, and nothing that ends a list. -/
theorem Denotes.exists_cons (h : Denotes t v) :
    ∃ c u, t = c :: u ∧ isSpace c = false ∧ c ≠ ']' := by
  cases h with
  | word h =>
    have hall : ∀ p ∈ words, ∃ c u, p.1 = c :: u ∧ isSpace c = false ∧ c ≠ ']' := by
      simp [words, isSpace]
    exact hall _ h
  | number h =>
    cases h with
    | plain h =>
      obtain ⟨c, u, rfl, hc⟩ := h.exists_cons
      refine ⟨c, u, rfl, isSpace_of_isDigit hc, ?_⟩
      rintro rfl
      exact absurd hc (by decide)
    | minus _ => exact ⟨'-', _, rfl, by decide, by decide⟩
  | string h =>
    obtain ⟨-⟩ := h
    exact ⟨'"', _, rfl, by decide, by decide⟩
  | emptyArray _ => exact ⟨'[', _, rfl, by decide, by decide⟩
  | array _ _ _ _ => exact ⟨'[', _, rfl, by decide, by decide⟩
  | emptyObject _ => exact ⟨'\x7b', _, rfl, by decide, by decide⟩
  | object _ _ _ _ => exact ⟨'\x7b', _, rfl, by decide, by decide⟩

/-- Space ends a value, and so does what ends a list or a part of it. -/
theorem avoids_isNumberPart_append (hw : IsSpace w) {c : Char} (hc : isNumberPart c = false)
    (r : List Char) : Avoids isNumberPart (w ++ c :: r) := by
  cases w with
  | nil => exact Avoids.cons hc r
  | cons d w => exact Avoids.cons (isNumberPart_of_isSpace (hw d List.mem_cons_self)) _

/-- Whether a character stands behind a part of a list. -/
def EndsPart (c : Char) : Prop :=
  isSpace c = false ∧ isNumberPart c = false

/-- The reader of parts takes up one part and looks for a comma or the end behind it. -/
theorem readParts?_part (hfront : Reads front F (Avoids isSpace)) {q : Part κ}
    (hkey : F q.front q.key) (hbehind : IsSpace q.behind) (hdenotes : Denotes q.text q.value)
    (hvalue : ∀ r, Avoids isNumberPart r → value (q.text ++ r) = some (q.value, r)) (n : Nat)
    {c : Char} (hc : EndsPart c) (r : List Char) :
    readParts? front value close (n + 1) (q.front ++ q.text ++ q.behind ++ c :: r) =
      (behind ',' (readParts? front value close n) (after close (done [])) (c :: r)).map
        fun p => ((q.key, q.value) :: p.1, p.2) := by
  obtain ⟨d, u, htext, hd, -⟩ := hdenotes.exists_cons
  -- Space stops in front of the value, which begins with no space.
  have hstop : Avoids isSpace (q.text ++ (q.behind ++ c :: r)) := by
    rw [htext]
    exact Avoids.cons hd _
  have hspace : readSpace? (q.behind ++ c :: r) = some ((), c :: r) :=
    reads_space.complete hbehind (Avoids.cons hc.1 r)
  rw [List.append_assoc, List.append_assoc]
  simp only [readParts?, filterMap, seq, hfront.complete hkey hstop,
    hvalue _ (avoids_isNumberPart_append hbehind hc.2 r), hspace, Option.bind_some, Option.map_some]
  cases behind ',' (readParts? front value close n) (after close (done [])) (c :: r) with
  | none => rfl
  | some p => rfl

theorem joined_cons_cons (q q' : Part κ) (qs : List (Part κ)) :
    joined (q :: q' :: qs) = q.front ++ q.text ++ q.behind ++ ',' :: joined (q' :: qs) := rfl

/-- The reader of parts reads every row of parts, by induction on the row. -/
theorem readParts?_complete (hfront : Reads front F (Avoids isSpace)) (hclose : close ≠ ',')
    (hends : EndsPart close) {n : Nat} {qs : List (Part κ)} (hqs : AreParts F qs)
    (hn : qs.length ≤ n)
    (hvalue : ∀ q ∈ qs, ∀ r, Avoids isNumberPart r → value (q.text ++ r) = some (q.value, r))
    (r : List Char) :
    readParts? front value close n (joined qs ++ close :: r) =
      some (qs.map fun q => (q.key, q.value), r) := by
  -- On the parts; the last one is followed by the closing character, any other by a comma.
  induction qs generalizing n with
  | nil => exact absurd rfl hqs.ne_nil
  | cons q qs ih =>
    obtain ⟨hkey, hkeys⟩ := List.forall_mem_cons.1 hqs.front
    obtain ⟨hbehind, hbehinds⟩ := List.forall_mem_cons.1 hqs.behind
    obtain ⟨hdenotes, hdenote⟩ := List.forall_mem_cons.1 hqs.denotes
    obtain ⟨hread, hreads⟩ := List.forall_mem_cons.1 hvalue
    cases n with
    | zero => cases hn
    | succ n =>
      cases qs with
      | nil =>
        rw [joined, readParts?_part hfront hkey hbehind hdenotes hread n hends]
        simp [behind, after, done, hclose]
      | cons q' qs =>
        -- A comma ends a number as well as the closing character does.
        have hcomma : EndsPart ',' := ⟨by decide, by decide⟩
        have hrest := ih ⟨List.cons_ne_nil _ _, hkeys, hbehinds, hdenote⟩
          (Nat.le_of_succ_le_succ hn) hreads
        rw [joined_cons_cons, List.append_assoc, List.cons_append,
          readParts?_part hfront hkey hbehind hdenotes hread n hcomma, behind, List.head?_cons,
          if_pos rfl, List.tail_cons, hrest]
        rfl

/-! ### Lengths -/

theorem exists_joined_eq (q : Part κ) (qs : List (Part κ)) :
    ∃ u, joined (q :: qs) = q.front ++ (q.text ++ u) := by
  cases qs with
  | nil => exact ⟨q.behind, by rw [joined, List.append_assoc]⟩
  | cons q' qs =>
    refine ⟨q.behind ++ ',' :: joined (q' :: qs), ?_⟩
    rw [joined_cons_cons, List.append_assoc, List.append_assoc]

theorem length_joined_cons (q : Part κ) (qs : List (Part κ)) :
    q.text.length + (joined qs).length ≤ (joined (q :: qs)).length := by
  cases qs with
  | nil =>
    simp only [joined, List.length_append, List.length_nil]
    omega
  | cons q' qs =>
    simp only [joined_cons_cons, List.length_append, List.length_cons]
    omega

/-- A value in a list is no longer than the list. -/
theorem length_text_le {qs : List (Part κ)} {q : Part κ} (hq : q ∈ qs) :
    q.text.length ≤ (joined qs).length := by
  induction qs with
  | nil => cases hq
  | cons q' qs ih =>
    have hlength := length_joined_cons q' qs
    rcases List.mem_cons.1 hq with rfl | hq
    · omega
    · have := ih hq
      omega

/-- There are no more values in a list than it has characters. -/
theorem length_le_joined {qs : List (Part κ)} (h : ∀ q ∈ qs, Denotes q.text q.value) :
    qs.length ≤ (joined qs).length := by
  induction qs with
  | nil => exact Nat.zero_le _
  | cons q qs ih =>
    obtain ⟨hq, hqs⟩ := List.forall_mem_cons.1 h
    obtain ⟨c, u, htext, -⟩ := hq.exists_cons
    have hlength := length_joined_cons q qs
    have hrest := ih hqs
    rw [htext, List.length_cons] at hlength
    rw [List.length_cons]
    omega

/-! ### Values -/

/-- Space between the brackets is the empty list. -/
theorem readList?_space (hw : IsSpace w) (hclose : isSpace close = false) (n : Nat)
    (r : List Char) :
    readList? front value close n (w ++ close :: r) = some ([], r) := by
  have hspace : readSpace? (w ++ close :: r) = some ((), close :: r) :=
    reads_space.complete hw (Avoids.cons hclose r)
  simp [readList?, orElse, filterMap, seq, hspace, after, behind, done]

/-- Where the brackets do not close at once, there are parts between them. -/
theorem readList?_complete (hfront : Reads front F (Avoids isSpace)) (hclose : close ≠ ',')
    (hends : EndsPart close) {n : Nat} {qs : List (Part κ)} (hqs : AreParts F qs)
    (hn : qs.length ≤ n)
    (hvalue : ∀ q ∈ qs, ∀ r, Avoids isNumberPart r → value (q.text ++ r) = some (q.value, r))
    (r : List Char) (hopen : (skipSpace (joined qs ++ close :: r)).head? ≠ some close) :
    readList? front value close n (joined qs ++ close :: r) =
      some (qs.map fun q => (q.key, q.value), r) := by
  simp only [readList?, orElse, filterMap, seq, readSpace?, after, behind, Option.bind_some,
    if_neg hopen, Option.map_none, Option.bind_none, Option.none_or]
  exact readParts?_complete hfront hclose hends hqs hn hvalue r

/-- Without a quote, a bracket or a brace in front a value is a word or a number. -/
theorem readValue?_scalar (n : Nat) {c : Char} (hquote : c ≠ '"') (hbracket : c ≠ '[')
    (hbrace : c ≠ '\x7b') (cs : List Char) :
    readValue? (n + 1) (c :: cs) =
      orElse readWord? (filterMap readNumber? fun q => some (.number q)) (c :: cs) := by
  simp [readValue?, behind, hquote, hbracket, hbrace]

/-- A number starts with a character that starts no other value. -/
theorem NumberText.exists_cons {q : ℚ} (h : NumberText t q) :
    ∃ c u, t = c :: u ∧ (c = '-' ∨ isDigit c = true) := by
  cases h with
  | plain h =>
    obtain ⟨c, u, rfl, hc⟩ := h.exists_cons
    exact ⟨c, u, rfl, .inr hc⟩
  | minus _ => exact ⟨'-', _, rfl, .inl rfl⟩

/-- No number begins with one of the three words. -/
theorem readWord?_of_number {q : ℚ} (h : NumberText t q) (r : List Char) :
    readWord? (t ++ r) = none := by
  obtain ⟨c, u, rfl, hc⟩ := h.exists_cons
  rw [Option.eq_none_iff_forall_ne_some]
  rintro ⟨v, r'⟩ hread
  obtain ⟨t', ht', hword⟩ := (reads_word (S := Nowhere)).sound hread
  -- The words begin with letters.
  have hall : ∀ p ∈ words, ∃ d u, p.1 = d :: u ∧ ¬(d = '-' ∨ isDigit d = true) := by
    simp [words, isDigit]
  obtain ⟨d, u', hd, hne⟩ := hall _ hword
  simp only at hd
  rw [hd] at ht'
  rw [(List.cons.inj ht').1] at hc
  exact hne hc

/-- Behind a bracket the reader of values reads a list. -/
theorem readValue?_array (n : Nat) (cs : List Char) :
    readValue? (n + 1) ('[' :: cs) =
      (readList? readSpace? (readValue? n) ']' n cs).map
        fun p => (.array (p.1.map (·.2)), p.2) := by
  cases h : readList? readSpace? (readValue? n) ']' n cs <;> simp [readValue?, behind, filterMap, h]

theorem readValue?_object (n : Nat) (cs : List Char) :
    readValue? (n + 1) ('\x7b' :: cs) =
      (readList? readKey? (readValue? n) '\x7d' n cs).map fun p => (.object p.1, p.2) := by
  cases h : readList? readKey? (readValue? n) '\x7d' n cs <;>
    simp [readValue?, behind, filterMap, h]

/-- Between the brackets of an array no value starts like the closing one. -/
theorem head?_skipSpace_array {ps : List (Part Unit)} (hps : AreParts (fun t _ => IsSpace t) ps)
    (r : List Char) : (skipSpace (joined ps ++ r)).head? ≠ some ']' := by
  obtain ⟨p, qs, rfl⟩ := List.exists_cons_of_ne_nil hps.ne_nil
  obtain ⟨u, hjoined⟩ := exists_joined_eq p qs
  obtain ⟨c, text, htext, hc, hne⟩ := (hps.denotes p List.mem_cons_self).exists_cons
  rw [hjoined, List.append_assoc, skipSpace_append (hps.front p List.mem_cons_self), htext,
    List.cons_append, List.cons_append, skipSpace, (Avoids.cons hc _).dropWhile, List.head?_cons,
    ne_eq, Option.some.injEq]
  exact hne

/-- Behind the brace of an object with parts there is a part and no closing brace. -/
theorem head?_skipSpace_object {ps : List (Part String)} (hps : AreParts KeyText ps)
    (r : List Char) : (skipSpace (joined ps ++ r)).head? ≠ some '\x7d' := by
  obtain ⟨p, qs, rfl⟩ := List.exists_cons_of_ne_nil hps.ne_nil
  obtain ⟨u, hjoined⟩ := exists_joined_eq p qs
  have hfront := hps.front p List.mem_cons_self
  rw [hjoined]
  generalize p.front = front at hfront ⊢
  obtain ⟨hw, ⟨-⟩, -, -⟩ := hfront
  rw [List.append_assoc, List.append_assoc, List.append_assoc, List.append_assoc,
    skipSpace_append hw, List.cons_append, skipSpace, (Avoids.cons (by decide) _).dropWhile,
    List.head?_cons]
  decide

/-- The reader of values reads every text of the grammar, by induction on the derivation. -/
theorem readValue?_complete {n : Nat} (h : Denotes t v) (hn : t.length ≤ n)
    (hr : Avoids isNumberPart r) : readValue? n (t ++ r) = some (v, r) := by
  -- On the depth that is left, which the length of the text bounds.
  induction n generalizing t v r with
  | zero =>
    obtain ⟨c, u, rfl, -⟩ := h.exists_cons
    cases hn
  | succ n ih =>
    cases h with
    | word h =>
      -- A word has none of the three characters in front that begin other values.
      have hword : readWord? (t ++ r) = some (v, r) :=
        (reads_word (S := fun _ => True)).complete h trivial
      have hall : ∀ p ∈ words, ∃ c u, p.1 = c :: u ∧ c ≠ '"' ∧ c ≠ '[' ∧ c ≠ '\x7b' := by
        simp [words]
      obtain ⟨c, u, htext, hquote, hbracket, hbrace⟩ := hall _ h
      simp only at htext
      subst htext
      rw [List.cons_append] at hword ⊢
      rw [readValue?_scalar n hquote hbracket hbrace, orElse, hword, Option.some_or]
    | number h =>
      -- A number neither, and it is no word, for which the reader looks first.
      have hword := readWord?_of_number h r
      have hnumber := reads_number.complete h hr
      obtain ⟨c, u, rfl, hc⟩ := h.exists_cons
      have hquote : c ≠ '"' ∧ c ≠ '[' ∧ c ≠ '\x7b' := by
        refine ⟨?_, ?_, ?_⟩
        · rintro rfl
          exact absurd hc (by decide)
        · rintro rfl
          exact absurd hc (by decide)
        · rintro rfl
          exact absurd hc (by decide)
      rw [List.cons_append] at hword hnumber ⊢
      rw [readValue?_scalar n hquote.1 hquote.2.1 hquote.2.2, orElse, hword, Option.none_or,
        filterMap, hnumber, Option.bind_some, Option.map_some]
    | string h =>
      obtain ⟨hbody⟩ := h
      have hchars := (reads_chars (S := fun _ => True)).complete (r := r) ⟨_, rfl, hbody⟩ trivial
      rw [List.cons_append, readValue?, behind, List.head?_cons, if_pos rfl, List.tail_cons,
        filterMap, hchars, Option.bind_some, Option.map_some, String.ofList_toList]
    | emptyArray hw =>
      rw [List.cons_append, List.append_assoc, readValue?_array, List.singleton_append,
        readList?_space hw (by decide), Option.map_some, List.map_nil]
    | array hne hfront hbehind h =>
      have hparts : AreParts (fun t (_ : Unit) => IsSpace t) _ := ⟨hne, hfront, hbehind, h⟩
      simp only [List.length_cons, List.length_append, List.length_nil] at hn
      -- Each item is shorter than the array, so that the readers of items have depth left.
      have hlist := readList?_complete (n := n) reads_space (by decide) ⟨by decide, by decide⟩
        hparts (Nat.le_trans (length_le_joined h) (by omega))
        (fun q hq r hr => ih (h q hq) (Nat.le_trans (length_text_le hq) (by omega)) hr) r
        (head?_skipSpace_array hparts _)
      rw [List.cons_append, List.append_assoc, List.singleton_append, readValue?_array, hlist,
        Option.map_some, List.map_map]
      rfl
    | emptyObject hw =>
      rw [List.cons_append, List.append_assoc, readValue?_object, List.singleton_append,
        readList?_space hw (by decide), Option.map_some]
    | object hne hfront hbehind h =>
      have hparts : AreParts KeyText _ := ⟨hne, hfront, hbehind, h⟩
      simp only [List.length_cons, List.length_append, List.length_nil] at hn
      have hlist := readList?_complete (n := n) reads_key (by decide) ⟨by decide, by decide⟩ hparts
        (Nat.le_trans (length_le_joined h) (by omega))
        (fun q hq r hr => ih (h q hq) (Nat.le_trans (length_text_le hq) (by omega)) hr) r
        (head?_skipSpace_object hparts _)
      rw [List.cons_append, List.append_assoc, List.singleton_append, readValue?_object, hlist,
        Option.map_some]

/-! ## Whole texts -/

/-- The reader reads the texts of the grammar, each as what it stands for. -/
theorem read?_eq_some_iff : read? cs = some v ↔ IsText cs v := by
  constructor
  · intro h
    have hspace : Reads readSpace? (fun t _ => IsSpace t) Nowhere := reads_space.nowhere id
    have hwhole := (hspace.seq (readValue?_sound cs.length) fun _ h => h).seq hspace fun _ h => h
    obtain ⟨⟨p, r⟩, hread, hend⟩ := Option.bind_eq_some_iff.1 h
    split at hend
    next hr =>
      simp only at hr
      -- Nothing is left behind the last space.
      subst hr
      obtain ⟨_, hcs, _, w', rfl, ⟨w, t, rfl, hw, ht⟩, hw'⟩ := hwhole.sound hread
      rw [← Option.some.inj hend]
      exact ⟨w, t, w', hw, hw', ht, by rw [hcs, List.append_nil]⟩
    next => cases hend
  · rintro ⟨w, t, w', hw, hw', ht, rfl⟩
    obtain ⟨c, u, htext, hc, -⟩ := ht.exists_cons
    have hfirst : readSpace? (w ++ (t ++ w')) = some ((), t ++ w') :=
      reads_space.complete hw (htext ▸ Avoids.cons hc _)
    have hvalue : readValue? (w ++ (t ++ w')).length (t ++ w') = some (v, w') := by
      -- The whole text bounds the length of the value, and space ends a number.
      refine readValue?_complete ht ?_ fun d hd => ?_
      · simp only [List.length_append]
        omega
      · exact isNumberPart_of_isSpace (hw' d (List.mem_of_head? hd))
    have hlast : readSpace? w' = some ((), []) := by
      rw [← List.append_nil w']
      exact reads_space.complete hw' (Avoids.nil _)
    simp only [read?, seq, List.append_assoc, hfirst, hvalue, hlast, Option.bind_some,
      Option.map_some, if_true]

/-- A text stands for one value. -/
theorem IsText.unique {u : Value} (h : IsText cs v) (h' : IsText cs u) : v = u := by
  rw [← read?_eq_some_iff] at h h'
  exact Option.some.inj (h.symm.trans h')

end Lexis.Json

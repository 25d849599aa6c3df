/-
  Lexis.Proofs.Scan.Kinds

  Which kinds a scan yields, and which words are keywords.

  Three tables have to agree: the words that are looked up, the names of the kinds, and the list of
  the kinds that are set aside. A kind is never yielded if and only if it is set aside, and the
  kind of a word is that of the keyword whose name it spells, or else that of an identifier.
-/

import Lexis.Proofs.Scan.Lines
import Lexis.Proofs.Scan.Lookahead

namespace Lexis

open Lexis.Grammar Lexis.Text

namespace Kind

/-- The name of a kind in lower case, which is what a keyword of the kind is written like. -/
def spelling (k : Kind) : String :=
  String.ofList (k.name.toList.map Char.toLower)

/-- A keyword that the scanner knows. -/
def IsScannedKeyword (k : Kind) : Prop :=
  k.isKeyword = true ∧ k.isReserved = false

/-- Whether a scanner makes a kind from its word can be evaluated. -/
instance : DecidablePred IsScannedKeyword := fun _ => inferInstanceAs (Decidable (_ ∧ _))

/-- A source with a token of a kind, for each kind that is not set aside. -/
def sample (k : Kind) : String :=
  match k with
  | .identifier => "x"
  | .number => "0"
  | .string => "\"\""
  | .error => "@"
  | .eof => ""
  | k =>
    if k.isKeyword then k.spelling
    else ((symbols.find? (·.2 = k)).map (·.1)).getD ""

end Kind

/-! ## The tables -/

namespace Keyword

/-- The words that are looked up are those that the scanned keywords are written like. -/
theorem ofWord?_eq_some_iff {word : String} {kind : Kind} :
    ofWord? word = some kind ↔ kind.IsScannedKeyword ∧ word = kind.spelling := by
  constructor
  · intro h
    have hall : ∀ entry ∈ table, entry.2.IsScannedKeyword ∧ entry.1 = entry.2.spelling := by
      decide +kernel
    exact hall _ (mem_table_of_ofWord? h)
  · rintro ⟨hkeyword, rfl⟩
    have hall : ∀ k ∈ Kind.all, k.IsScannedKeyword → ofWord? k.spelling = some k := by
      decide +kernel
    exact hall kind kind.mem_all hkeyword

theorem ofWord?_eq_none_iff {word : String} :
    ofWord? word = none ↔ ∀ k : Kind, k.IsScannedKeyword → word ≠ k.spelling := by
  constructor
  · intro hnone k hk heq
    rw [ofWord?_eq_some_iff.2 ⟨hk, heq⟩] at hnone
    cases hnone
  · intro h
    rw [Option.eq_none_iff_forall_ne_some]
    intro k hsome
    obtain ⟨hk, heq⟩ := ofWord?_eq_some_iff.1 hsome
    exact h k hk heq

end Keyword

/-! ## Tokens of the grammar -/

namespace Grammar

variable {kind : Kind} {w : List Char}

/-- No kind that is set aside has a token. -/
theorem isReserved_of_isToken (h : IsToken kind w) : kind.isReserved = false := by
  cases h with
  | symbol h =>
    have hall : ∀ entry ∈ symbols, entry.2.isReserved = false := by decide +kernel
    exact hall _ h
  | word _ =>
    cases hword : Keyword.ofWord? (String.ofList w) with
    | none => rfl
    | some k => exact (Keyword.ofWord?_eq_some_iff.1 hword).1.2
  | number _ => rfl
  | string _ => rfl

/-- A word starts with a letter, which no other token does. -/
theorem isWordStart_of_mem_word (h : w ∈ word) : ∃ c cs, w = c :: cs ∧ isWordStart c = true := by
  obtain ⟨c, cs, rfl, hc, -⟩ := mem_word.1 h
  exact ⟨c, cs, rfl, hc⟩

theorem not_mem_word_of_mem_symbols {s : String} (h : (s, kind) ∈ symbols) :
    s.toList ∉ word := by
  intro hword
  obtain ⟨c, cs, hs, hc⟩ := isWordStart_of_mem_word hword
  have hall : ∀ entry ∈ symbols, entry.1.toList.head?.any isWordStart = false := by
    decide +kernel
  have hfalse := hall _ h
  rw [hs, List.head?_cons, Option.any_some, hc] at hfalse
  cases hfalse

theorem not_mem_word_of_mem_number (h : w ∈ number) : w ∉ word := by
  intro hword
  obtain ⟨ds, fs, rfl, hds, -⟩ := mem_number.1 h
  obtain ⟨d, ds, rfl, hdigits⟩ := mem_digits.1 hds
  obtain ⟨c, cs, heq, hc⟩ := isWordStart_of_mem_word hword
  obtain ⟨rfl, -⟩ := List.cons.inj heq
  have hdigit := hdigits d List.mem_cons_self
  rw [Piece.isDigit_eq_false_of_isWordStart hc] at hdigit
  cases hdigit

theorem not_mem_word_of_mem_string (h : w ∈ string) : w ∉ word := by
  intro hword
  obtain ⟨body, rfl, -⟩ := mem_string.1 h
  obtain ⟨c, cs, heq, hc⟩ := isWordStart_of_mem_word hword
  obtain ⟨rfl, -⟩ := List.cons.inj heq
  exact absurd hc (by decide)

/-- The kind of a word is looked up. -/
theorem kind_of_mem_word (h : IsToken kind w) (hword : w ∈ word) :
    kind = (Keyword.ofWord? (String.ofList w)).getD .identifier := by
  cases h with
  | symbol h => exact absurd hword (not_mem_word_of_mem_symbols h)
  | word _ => rfl
  | number h => exact absurd hword (not_mem_word_of_mem_number h)
  | string h => exact absurd hword (not_mem_word_of_mem_string h)

/-- Only words have kinds of keywords, or the kind of identifiers. -/
theorem mem_word_of_isToken (h : IsToken kind w)
    (hkind : kind.isKeyword = true ∨ kind = .identifier) : w ∈ word := by
  cases h with
  | symbol h =>
    have hall : ∀ entry ∈ symbols, ¬ (entry.2.isKeyword = true ∨ entry.2 = .identifier) := by
      decide +kernel
    exact absurd hkind (hall _ h)
  | word h => exact h
  | number _ => exact absurd hkind (by decide)
  | string _ => exact absurd hkind (by decide)

end Grammar

/-! ## Tokens of a source -/

variable {source : String} {t : Token}

/-- A token is the end token, reports an error, or is a token of the grammar. -/
theorem cases_of_mem_tokens (h : t ∈ tokens source) :
    (t.kind = .eof ∧ t.lexeme = "") ∨ (t.kind = .error ∧ ∃ e : LexicalError, t.lexeme = e.message) ∨
      IsToken t.kind t.lexeme.toList := by
  obtain ⟨u, r, -, rfl⟩ := exists_of_mem_tokens h
  rw [Item.token, Item.first, Piece.token]
  -- The end of the text is the end token; in front of a character stands a piece.
  cases hrest : Trivia.rest r with
  | nil => exact .inl ⟨rfl, rfl⟩
  | cons c cs =>
    rw [Piece.next]
    cases houtcome : (Piece.first c cs).outcome with
    | error e => exact .inr (.inl ⟨rfl, e, rfl⟩)
    | ok kind =>
      refine .inr (.inr ?_)
      rw [String.toList_ofList]
      exact Piece.isToken_of_outcome_first houtcome

theorem message_not_mem_word (e : LexicalError) : e.message.toList ∉ word := by
  intro hword
  obtain ⟨c, cs, hmessage, -, hcs⟩ := mem_word.1 hword
  -- Both messages have a blank in them.
  have hblank : ' ' ∈ e.message.toList.tail := by cases e <;> decide
  rw [hmessage, List.tail_cons] at hblank
  exact absurd (hcs ' ' hblank) (by decide)

/-- The words of a source are tokens of the grammar. -/
theorem isToken_of_mem_word (h : t ∈ tokens source) (hword : t.lexeme.toList ∈ word) :
    IsToken t.kind t.lexeme.toList := by
  rcases cases_of_mem_tokens h with ⟨-, hlexeme⟩ | ⟨-, e, hlexeme⟩ | htoken
  · rw [hlexeme] at hword
    obtain ⟨c, cs, hnil, -⟩ := isWordStart_of_mem_word hword
    cases hnil
  · rw [hlexeme] at hword
    exact absurd hword (message_not_mem_word e)
  · exact htoken

/-- A lexeme that is a word has the kind of its keyword, or is an identifier. -/
theorem kind_of_word (h : t ∈ tokens source) (hword : t.lexeme.toList ∈ word) :
    t.kind = (Keyword.ofWord? t.lexeme).getD .identifier := by
  rw [kind_of_mem_word (isToken_of_mem_word h hword) hword, String.ofList_toList]

/-- A token with the kind of a keyword or of identifiers is a word. -/
theorem mem_word_of_kind (h : t ∈ tokens source)
    (hkind : t.kind.isKeyword = true ∨ t.kind = .identifier) : t.lexeme.toList ∈ word := by
  rcases cases_of_mem_tokens h with ⟨heof, -⟩ | ⟨herror, -⟩ | htoken
  · rw [heof] at hkind
    exact absurd hkind (by decide)
  · rw [herror] at hkind
    exact absurd hkind (by decide)
  · exact mem_word_of_isToken htoken hkind

/-- No token has a kind that is reserved. -/
theorem isReserved_of_mem_tokens (h : t ∈ tokens source) : t.kind.isReserved = false := by
  rcases cases_of_mem_tokens h with ⟨heof, -⟩ | ⟨herror, -⟩ | htoken
  · rw [heof]
    rfl
  · rw [herror]
    rfl
  · exact isReserved_of_isToken htoken

/-! ## What a source yields -/

/-- A token that comes from a source: it is in the list of all its tokens, or in the answer to a
    step of a session on it. -/
inductive Yields (source : String) (t : Token) : Prop where
  | all {ts : List Token} (h : tokenize source = .ok ts) (ht : t ∈ ts) : Yields source t
  | step {s s' : Scanner.Session} {x : Scanner.Step} {answer : Scanner.Answer}
      (hs : s.Reached source) (h : s.step x = .ok (answer, s')) (ht : t ∈ answer.held) :
      Yields source t

theorem mem_tokens_of_yields (hsize : source.utf8ByteSize ≤ maxSize) (h : Yields source t) :
    t ∈ tokens source := by
  have hoffset := size_le_maxOffset hsize
  cases h with
  | all htokens ht =>
    rw [tokenize_eq hoffset] at htokens
    split at htokens
    · cases htokens
      exact ht
    · cases htokens
  -- A session that is reached stands at a token, and holds tokens from there on.
  | step hs hstep ht =>
    obtain ⟨b, hb⟩ := Scanner.Session.exists_follows hoffset hs
    have hne : tokens source ≠ [] := List.length_pos_iff.1 (length_tokens_pos source)
    rw [(Scanner.Session.follows_of_step_eq hoffset hb hstep).1] at ht
    exact Bookmark.mem_of_mem_held hne _ ht

/-- Every kind that is not set aside is yielded. -/
theorem exists_yields_sample {k : Kind} (hk : k.isReserved = false) :
    k.sample.utf8ByteSize ≤ maxSize ∧ ∃ t, Yields k.sample t ∧ t.kind = k := by
  -- One sample for each kind, checked by running the scanner.
  have hall : ∀ k ∈ Kind.all, k.isReserved = false → k.sample.utf8ByteSize ≤ maxSize ∧
      ((tokenize k.sample).toOption.getD []).any (·.kind = k) = true := by
    decide +kernel
  obtain ⟨hsize, hany⟩ := hall k k.mem_all hk
  refine ⟨hsize, ?_⟩
  cases htokens : tokenize k.sample with
  | error fault =>
    rw [htokens] at hany
    cases hany
  | ok ts =>
    rw [htokens] at hany
    obtain ⟨t, ht, hkind⟩ := List.any_eq_true.1 hany
    exact ⟨t, .all htokens ht, of_decide_eq_true hkind⟩

/-! ## Words -/

/-- A text that is a word cut short, a word that goes on, or a word in other letter case. -/
def IsVariant (text word : String) : Prop :=
  text ≠ word ∧ (text.toList <+: word.toList ∨ word.toList <+: text.toList ∨
    text.toList.map Char.toLower = word.toList)

/-- Whether a text is a word in other letters can be evaluated. -/
instance (text word : String) : Decidable (IsVariant text word) :=
  inferInstanceAs (Decidable (_ ∧ _))

/-- No keyword is a variant of another, set aside or not. -/
theorem Keyword.ofWord?_of_isVariant {text : String} {k : Kind} (hk : k.isKeyword = true)
    (h : IsVariant text k.spelling) : ofWord? text = none := by
  cases hword : ofWord? text with
  | none => rfl
  | some kind =>
    have hall : ∀ entry ∈ table, ∀ k ∈ Kind.all, k.isKeyword = true →
        ¬ IsVariant entry.1 k.spelling := by
      decide +kernel
    exact absurd h (hall _ (mem_table_of_ofWord? hword) k k.mem_all hk)

/-- What the lexeme of a token says about its kind: keywords are told by what they are written like,
    and every other word is an identifier. -/
structure KeywordsTold (t : Token) : Prop where
  isKeyword_iff : ∀ k : Kind, t.kind = k ∧ k.isKeyword = true ↔
    t.lexeme.toList ∈ word ∧ k.IsScannedKeyword ∧ t.lexeme = k.spelling
  isIdentifier_iff : t.kind = .identifier ↔
    t.lexeme.toList ∈ word ∧ ∀ k : Kind, k.IsScannedKeyword → t.lexeme ≠ k.spelling
  isIdentifier_of_reserved : ∀ k : Kind, k.isKeyword = true → k.isReserved = true →
    t.lexeme = k.spelling → t.kind = .identifier
  isIdentifier_of_variant : ∀ k : Kind, k.isKeyword = true → t.lexeme.toList ∈ word →
    IsVariant t.lexeme k.spelling → t.kind = .identifier

theorem Kind.spelling_mem_word {k : Kind} (hk : k.isKeyword = true) :
    k.spelling.toList ∈ word := by
  -- One check for each spelling of the table.
  have hall : ∀ k ∈ Kind.all, k.isKeyword = true →
      (k.spelling.toList.head?.any isWordStart &&
        k.spelling.toList.tail.all isWordPart) = true := by
    decide +kernel
  obtain ⟨hhead, htail⟩ := Bool.and_eq_true_iff.1 (hall k k.mem_all hk)
  cases hspelling : k.spelling.toList with
  | nil =>
    rw [hspelling] at hhead
    cases hhead
  | cons c cs =>
    rw [hspelling] at hhead htail
    exact mem_word.2 ⟨c, cs, rfl, hhead, List.all_eq_true.1 htail⟩

/-- The spelling of a reserved keyword is none of the words that are told. -/
theorem Keyword.ofWord?_of_isReserved {k : Kind} (hk : k.isKeyword = true)
    (hreserved : k.isReserved = true) : ofWord? k.spelling = none := by
  have hall : ∀ k ∈ Kind.all, k.isKeyword = true → k.isReserved = true →
      ofWord? k.spelling = none := by
    decide +kernel
  exact hall k k.mem_all hk hreserved

theorem keywordsTold_of_mem_tokens (h : t ∈ tokens source) : KeywordsTold t where
  isKeyword_iff k := by
    constructor
    · rintro ⟨rfl, hkeyword⟩
      have hword := mem_word_of_kind h (.inl hkeyword)
      have hkind := kind_of_word h hword
      cases hlookup : Keyword.ofWord? t.lexeme with
      | none =>
        rw [hlookup, Option.getD_none] at hkind
        rw [hkind] at hkeyword
        exact absurd hkeyword (by decide)
      | some k =>
        rw [hlookup, Option.getD_some] at hkind
        rw [hkind]
        exact ⟨hword, Keyword.ofWord?_eq_some_iff.1 hlookup⟩
    · rintro ⟨hword, hkeyword, hlexeme⟩
      have hlookup := Keyword.ofWord?_eq_some_iff.2 ⟨hkeyword, hlexeme⟩
      refine ⟨?_, hkeyword.1⟩
      rw [kind_of_word h hword, hlookup, Option.getD_some]
  isIdentifier_iff := by
    constructor
    · intro hkind
      have hword := mem_word_of_kind h (.inr hkind)
      refine ⟨hword, Keyword.ofWord?_eq_none_iff.1 ?_⟩
      -- A word that is looked up with success has the kind of a keyword.
      cases hlookup : Keyword.ofWord? t.lexeme with
      | none => rfl
      | some k =>
        have hkeyword := (Keyword.ofWord?_eq_some_iff.1 hlookup).1.1
        rw [kind_of_word h hword, hlookup, Option.getD_some] at hkind
        rw [hkind] at hkeyword
        exact absurd hkeyword (by decide)
    · rintro ⟨hword, hnone⟩
      rw [kind_of_word h hword, Keyword.ofWord?_eq_none_iff.2 hnone, Option.getD_none]
  isIdentifier_of_reserved k hk hreserved hlexeme := by
    have hword : t.lexeme.toList ∈ word := by
      rw [hlexeme]
      exact Kind.spelling_mem_word hk
    rw [kind_of_word h hword, hlexeme, Keyword.ofWord?_of_isReserved hk hreserved,
      Option.getD_none]
  isIdentifier_of_variant k hk hword hvariant := by
    rw [kind_of_word h hword, Keyword.ofWord?_of_isVariant hk hvariant, Option.getD_none]

/-- A word by itself is one token. -/
theorem exists_mem_tokens_word {w : List Char} (hw : w ∈ word) :
    ∃ t ∈ tokens (String.ofList w), t.lexeme = String.ofList w := by
  obtain ⟨c, cs, rfl, hc, hcs⟩ := mem_word.1 hw
  -- Nothing is skipped in front of a letter: it is no blank and begins no comment.
  have hblank : isBlank c = false ∧ c ≠ '/' := by
    constructor
    · rw [← Bool.not_eq_true]
      intro hblank
      have hpart := isWordPart_eq_false_of_isBlank hblank
      rw [isWordPart, hc] at hpart
      cases hpart
    · rintro rfl
      exact absurd hc (by decide)
  have hrest : Trivia.rest (c :: cs) = c :: cs := by
    rw [Trivia.rest, Trivia.leading_of_slash hblank.1 (fun h => hblank.2 h.1), List.length_nil,
      List.drop_zero]
  refine ⟨(Item.first (c :: cs)).token [], ?_, ?_⟩
  · obtain ⟨its, hits⟩ := exists_items_eq_cons (c :: cs)
    rw [tokens, String.toList_ofList, hits, tokensAfter]
    exact List.mem_cons_self
  · have htake : cs.takeWhile isWordPart = cs := by
      rw [← List.append_nil cs, List.takeWhile_append_of_pos hcs, List.takeWhile_nil]
    rw [Item.token, Item.first, hrest, Piece.next, Piece.first_of_wordStart hc, Piece.token,
      Piece.word, htake]

/-- The kinds that are set aside are those that no source yields. In whatever a source yields the
    scanned keywords are told by their spelling, every other word is an identifier, and every word
    comes from the source that it is. -/
theorem kind_of_yields :
    (∀ k : Kind, k.isReserved = true ↔
      ¬ ∃ source t, source.utf8ByteSize ≤ maxSize ∧ Yields source t ∧ t.kind = k) ∧
    (∀ source t, source.utf8ByteSize ≤ maxSize → Yields source t → KeywordsTold t) ∧
    ∀ source, Scannable source → source.toList ∈ word →
      ∃ t, Yields source t ∧ t.lexeme = source := by
  refine ⟨?_, ?_, ?_⟩
  · intro k
    constructor
    · rintro hreserved ⟨source, t, hsize, ht, rfl⟩
      rw [isReserved_of_mem_tokens (mem_tokens_of_yields hsize ht)] at hreserved
      cases hreserved
    · intro hnone
      by_contra hk
      obtain ⟨hsize, t, ht, hkind⟩ := exists_yields_sample (Bool.not_eq_true _ ▸ hk)
      exact hnone ⟨k.sample, t, hsize, ht, hkind⟩
  · intro source t hsize ht
    exact keywordsTold_of_mem_tokens (mem_tokens_of_yields hsize ht)
  · intro source h hword
    obtain ⟨t, ht, hlexeme⟩ := exists_mem_tokens_word hword
    rw [String.ofList_toList] at ht hlexeme
    exact ⟨t, .all (tokenize_of_scannable h) ht, hlexeme⟩

/-- A keyword, one that is set aside, and one cut short. -/
theorem kind_of_yields_words :
    Yields "for from fo" ⟨.kwFor, "for", 1, ⟨0, 3⟩⟩ ∧
      Yields "for from fo" ⟨.identifier, "from", 1, ⟨4, 8⟩⟩ ∧
      Yields "for from fo" ⟨.identifier, "fo", 1, ⟨9, 11⟩⟩ ∧
      (Kind.kwFrom.isReserved = true ∧
        ¬ ∃ source t, source.utf8ByteSize ≤ maxSize ∧ Yields source t ∧ t.kind = .kwFrom) ∧
      KeywordsTold ⟨.kwFor, "for", 1, ⟨0, 3⟩⟩ ∧ KeywordsTold ⟨.identifier, "from", 1, ⟨4, 8⟩⟩ ∧
      KeywordsTold ⟨.identifier, "fo", 1, ⟨9, 11⟩⟩ ∧ IsVariant "fo" Kind.kwFor.spelling ∧
      ∃ t, Yields "from" t ∧ t.lexeme = "from" := by
  have hsize : "for from fo".utf8ByteSize ≤ maxSize := by decide
  have htokens : tokenize "for from fo" =
      .ok [⟨.kwFor, "for", 1, ⟨0, 3⟩⟩, ⟨.identifier, "from", 1, ⟨4, 8⟩⟩,
        ⟨.identifier, "fo", 1, ⟨9, 11⟩⟩, ⟨.eof, "", 1, ⟨11, 11⟩⟩] := by
    decide +kernel
  have hfor : Yields "for from fo" ⟨.kwFor, "for", 1, ⟨0, 3⟩⟩ := .all htokens (by decide)
  have hfrom : Yields "for from fo" ⟨.identifier, "from", 1, ⟨4, 8⟩⟩ := .all htokens (by decide)
  have hfo : Yields "for from fo" ⟨.identifier, "fo", 1, ⟨9, 11⟩⟩ := .all htokens (by decide)
  obtain ⟨hreserved, htold, hword⟩ := kind_of_yields
  refine ⟨hfor, hfrom, hfo, ⟨rfl, (hreserved .kwFrom).1 rfl⟩, htold _ _ hsize hfor,
    htold _ _ hsize hfrom, htold _ _ hsize hfo, by decide +kernel, ?_⟩
  exact hword "from" ⟨by decide, by decide⟩ (Kind.spelling_mem_word (k := .kwFrom) rfl)

end Lexis

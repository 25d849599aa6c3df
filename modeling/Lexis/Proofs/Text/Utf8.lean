/-
  Lexis.Proofs.Text.Utf8

  Decoding finds what bytes are the form of, or the place from which they are the form of nothing.

  The form of a character is told by its number and nothing else (`HasForm`). A begun character of
  the decoder stands for the bytes that complete it, and `Front` says what the decoder meets in the
  bytes to come: a whole character, the end of the bytes, or a byte after which no form goes on. Its
  index is then the length of the longest text at the front, and the bytes it blames are the longest
  beginning of a form behind that.
-/

import Lexis.Proofs.Text.Place
import Mathlib.Data.List.Infix
import Mathlib.Tactic.SplitIfs

namespace Lexis.Utf8

variable {c : Char} {b t : UInt8} {tail more rest bs u v : List UInt8} {p : Partial} {i : Nat}

/-! ## The bytes of a character -/

/-- A character is the one of a number if the number is its code, which no number of a surrogate
    is. -/
theorem eq_ofNat_iff {n : Nat} (h : n < 0xD800 ∨ 0xDFFF < n ∧ n < 0x110000) :
    c = Char.ofNat n ↔ c.toNat = n := by
  have hvalid : n.isValidChar := h
  have hcode : (Char.ofNat n).toNat = n := by
    rw [Char.ofNat, dif_pos hvalid]
    rfl
  constructor
  · rintro rfl
    exact hcode
  · rintro rfl
    exact (Char.ofNat_toNat c).symm

theorem toNat_valid (c : Char) :
    c.toNat < 0xD800 ∨ 0xDFFF < c.toNat ∧ c.toNat < 0x110000 :=
  c.valid

/-- The form of a character, by the number of its bytes. -/
inductive HasForm (c : Char) : List UInt8 → Prop where
  | one {b : UInt8} (hb : b.toNat < 0x80) (hc : c.toNat = b.toNat) : HasForm c [b]
  | two {b t : UInt8} (hb : 0xC2 ≤ b.toNat ∧ b.toNat ≤ 0xDF) (ht : 0x80 ≤ t.toNat ∧ t.toNat ≤ 0xBF)
      (hc : c.toNat = b.toNat % 32 * 64 + t.toNat % 64) : HasForm c [b, t]
  | three {b t t' : UInt8} (hb : 0xE0 ≤ b.toNat ∧ b.toNat ≤ 0xEF)
      (ht : 0x80 ≤ t.toNat ∧ t.toNat ≤ 0xBF) (ht' : 0x80 ≤ t'.toNat ∧ t'.toNat ≤ 0xBF)
      (hc : c.toNat = (b.toNat % 16 * 64 + t.toNat % 64) * 64 + t'.toNat % 64)
      (hlong : 0x800 ≤ c.toNat) : HasForm c [b, t, t']
  | four {b t t' t'' : UInt8} (hb : 0xF0 ≤ b.toNat ∧ b.toNat ≤ 0xF4)
      (ht : 0x80 ≤ t.toNat ∧ t.toNat ≤ 0xBF) (ht' : 0x80 ≤ t'.toNat ∧ t'.toNat ≤ 0xBF)
      (ht'' : 0x80 ≤ t''.toNat ∧ t''.toNat ≤ 0xBF)
      (hc : c.toNat =
        ((b.toNat % 8 * 64 + t.toNat % 64) * 64 + t'.toNat % 64) * 64 + t''.toNat % 64)
      (hlong : 0x10000 ≤ c.toNat) : HasForm c [b, t, t', t'']

theorem toNat_ofNat_of_lt {n : Nat} (hn : n < 256) : (UInt8.ofNat n).toNat = n := by
  rw [UInt8.toNat_ofNat', Nat.mod_eq_of_lt hn]

/-- The encoder writes every character in the form the standard has for it. -/
theorem hasForm_encodeChar (c : Char) : HasForm c (String.utf8EncodeChar c) := by
  have hvalid := toNat_valid c
  have hcode : c.val.toNat = c.toNat := rfl
  rw [String.utf8EncodeChar, hcode]
  -- By the number of bytes; each byte of a form is below 256, so none is cut off.
  split
  · have hb := toNat_ofNat_of_lt (n := c.toNat) (by omega)
    exact .one (by omega) (by omega)
  split
  · have hb := toNat_ofNat_of_lt (n := c.toNat / 64 % 32 + 192) (by omega)
    have ht := toNat_ofNat_of_lt (n := c.toNat % 64 + 128) (by omega)
    exact .two (by omega) (by omega) (by omega)
  split
  · have hb := toNat_ofNat_of_lt (n := c.toNat / 4096 % 16 + 224) (by omega)
    have ht := toNat_ofNat_of_lt (n := c.toNat / 64 % 64 + 128) (by omega)
    have ht' := toNat_ofNat_of_lt (n := c.toNat % 64 + 128) (by omega)
    exact .three (by omega) (by omega) (by omega) (by omega) (by omega)
  · have hb := toNat_ofNat_of_lt (n := c.toNat / 262144 % 8 + 240) (by omega)
    have ht := toNat_ofNat_of_lt (n := c.toNat / 4096 % 64 + 128) (by omega)
    have ht' := toNat_ofNat_of_lt (n := c.toNat / 64 % 64 + 128) (by omega)
    have ht'' := toNat_ofNat_of_lt (n := c.toNat % 64 + 128) (by omega)
    exact .four (by omega) (by omega) (by omega) (by omega) (by omega) (by omega)

/-- Each form belongs to one character, and each character has one form. -/
theorem HasForm.unique {w w' : List UInt8} (h : HasForm c w) (h' : HasForm c w') : w = w' := by
  have hvalid := toNat_valid c
  -- The number of bytes is fixed by the code, and then each byte is by some of its bits.
  cases h with
  | @one b hb hc =>
    cases h' with
    | @one b' hb' hc' => rw [UInt8.toNat_inj.1 (hc.symm.trans hc')]
    | two hb' ht' hc' => omega
    | three hb' ht' hu' hc' hlong' => omega
    | four hb' ht' hu' hv' hc' hlong' => omega
  | @two b t hb ht hc =>
    cases h' with
    | one hb' hc' => omega
    | @two b' t' hb' ht' hc' =>
      have hlead : b = b' := UInt8.toNat_inj.1 (by omega)
      have hlast : t = t' := UInt8.toNat_inj.1 (by omega)
      rw [hlead, hlast]
    | three hb' ht' hu' hc' hlong' => omega
    | four hb' ht' hu' hv' hc' hlong' => omega
  | @three b t u hb ht hu hc hlong =>
    cases h' with
    | one hb' hc' => omega
    | two hb' ht' hc' => omega
    | @three b' t' u' hb' ht' hu' hc' hlong' =>
      have hlead : b = b' := UInt8.toNat_inj.1 (by omega)
      have hsecond : t = t' := UInt8.toNat_inj.1 (by omega)
      have hlast : u = u' := UInt8.toNat_inj.1 (by omega)
      rw [hlead, hsecond, hlast]
    | four hb' ht' hu' hv' hc' hlong' => omega
  | @four b t u v hb ht hu hv hc hlong =>
    cases h' with
    | one hb' hc' => omega
    | two hb' ht' hc' => omega
    | three hb' ht' hu' hc' hlong' => omega
    | @four b' t' u' v' hb' ht' hu' hv' hc' hlong' =>
      have hlead : b = b' := UInt8.toNat_inj.1 (by omega)
      have hsecond : t = t' := UInt8.toNat_inj.1 (by omega)
      have hthird : u = u' := UInt8.toNat_inj.1 (by omega)
      have hlast : v = v' := UInt8.toNat_inj.1 (by omega)
      rw [hlead, hsecond, hthird, hlast]

/-- So the form of a character is what the encoder writes. -/
theorem hasForm_iff {w : List UInt8} : HasForm c w ↔ String.utf8EncodeChar c = w :=
  ⟨fun h => (hasForm_encodeChar c).unique h, fun h => h ▸ hasForm_encodeChar c⟩

/-! ## Begun characters -/

/-- The begun character after one more byte. -/
def Partial.next (p : Partial) (b : UInt8) : Partial :=
  ⟨p.missing - 1, 0x80, 0xBF, p.code * 64 + b.toNat % 64, p.taken + 1⟩

/-- The bytes complete the begun character, and it is `c`. -/
def Partial.Completes : Partial → List UInt8 → Char → Prop
  | _, [], _ => False
  | p, b :: tail, c => (p.low ≤ b ∧ b ≤ p.high) ∧
      if p.missing ≤ 1 then tail = [] ∧ c = Char.ofNat (p.next b).code
      else (p.next b).Completes tail c

/-- What a lead byte says of the bytes that follow it: how many there are, how far the first of them
    ranges, and which bits come before theirs. -/
inductive Leads (b : UInt8) : Partial → Prop where
  | two (hb : 0xC2 ≤ b.toNat ∧ b.toNat ≤ 0xDF) : Leads b ⟨1, 0x80, 0xBF, b.toNat % 32, 1⟩
  | three {low high : UInt8} (hb : 0xE0 ≤ b.toNat ∧ b.toNat ≤ 0xEF)
      (hlow : low.toNat = if b.toNat = 0xE0 then 0xA0 else 0x80)
      (hhigh : high.toNat = if b.toNat = 0xED then 0x9F else 0xBF) :
      Leads b ⟨2, low, high, b.toNat % 16, 1⟩
  | four {low high : UInt8} (hb : 0xF0 ≤ b.toNat ∧ b.toNat ≤ 0xF4)
      (hlow : low.toNat = if b.toNat = 0xF0 then 0x90 else 0x80)
      (hhigh : high.toNat = if b.toNat = 0xF4 then 0x8F else 0xBF) :
      Leads b ⟨3, low, high, b.toNat % 8, 1⟩

theorem leads_of_lead? (h : lead? b = some p) : Leads b p := by
  -- One case for each range of first bytes, with what may follow it.
  simp only [lead?, UInt8.le_iff_toNat_le, ← UInt8.toNat_inj, UInt8.reduceToNat] at h
  split at h
  · cases h
    exact .two ‹_›
  split at h
  · cases h
    exact .three (by omega) (by rw [if_pos ‹_›]; rfl) (by rw [if_neg (by omega)]; rfl)
  split at h
  · cases h
    exact .three (by omega) (by rw [if_neg (by omega)]; rfl) (by rw [if_pos ‹_›]; rfl)
  split at h
  · cases h
    exact .three (by omega) (by rw [if_neg (by omega)]; rfl) (by rw [if_neg (by omega)]; rfl)
  split at h
  · cases h
    exact .four (by omega) (by rw [if_pos ‹_›]; rfl) (by rw [if_neg (by omega)]; rfl)
  split at h
  · cases h
    exact .four (by omega) (by rw [if_neg (by omega)]; rfl) (by rw [if_neg (by omega)]; rfl)
  split at h
  · cases h
    exact .four (by omega) (by rw [if_neg (by omega)]; rfl) (by rw [if_pos ‹_›]; rfl)
  · cases h

theorem lead?_eq_none_iff : lead? b = none ↔ b.toNat < 0xC2 ∨ 0xF4 < b.toNat := by
  simp only [lead?, UInt8.le_iff_toNat_le, ← UInt8.toNat_inj, UInt8.reduceToNat]
  split_ifs <;> simp <;> omega

/-- A byte that is no lead byte stands for itself if it is ASCII, and starts no character else. -/
theorem encodeChar_ne_of_lead?_eq_none (hb : ¬ b < 0x80) (h : lead? b = none) :
    String.utf8EncodeChar c ≠ b :: tail := by
  have hb : ¬ b.toNat < 0x80 := hb
  rw [lead?_eq_none_iff] at h
  intro hbytes
  cases hasForm_iff.2 hbytes <;> omega

namespace Partial

variable {low high : UInt8} {code missing taken : Nat}

theorem not_completes_nil : ¬ p.Completes [] c := id

/-- One byte completes a character that misses one. -/
theorem completes_last : (⟨1, low, high, code, taken⟩ : Partial).Completes tail c ↔
    ∃ t, tail = [t] ∧ (low.toNat ≤ t.toNat ∧ t.toNat ≤ high.toNat) ∧
      c = Char.ofNat (code * 64 + t.toNat % 64) := by
  cases tail with
  | nil => simp [not_completes_nil]
  | cons t tail =>
    constructor
    · rintro ⟨hrange, rfl, hc⟩
      exact ⟨t, rfl, hrange, hc⟩
    · rintro ⟨t, ⟨⟩, hrange, hc⟩
      exact ⟨hrange, rfl, hc⟩

/-- Of the bytes that complete a character the ones behind the first are any continuation bytes. -/
theorem completes_more : (⟨missing + 2, low, high, code, taken⟩ : Partial).Completes tail c ↔
    ∃ t tail', tail = t :: tail' ∧ (low.toNat ≤ t.toNat ∧ t.toNat ≤ high.toNat) ∧
      (⟨missing + 1, 0x80, 0xBF, code * 64 + t.toNat % 64, taken + 1⟩ : Partial).Completes
        tail' c := by
  have hmore : ¬ missing + 2 ≤ 1 := by omega
  cases tail with
  | nil => simp [not_completes_nil]
  | cons t tail =>
    rw [Completes, if_neg hmore]
    constructor
    · rintro ⟨hrange, hc⟩
      exact ⟨t, tail, rfl, hrange, hc⟩
    · rintro ⟨t, tail, ⟨⟩, hrange, hc⟩
      exact ⟨hrange, hc⟩

end Partial

/-- What completes the character that a lead byte begins is the rest of its form. -/
theorem completes_iff (h : Leads b p) :
    p.Completes tail c ↔ String.utf8EncodeChar c = b :: tail := by
  have hvalid := toNat_valid c
  rw [← hasForm_iff]
  cases h with
  | two hb =>
    rw [Partial.completes_last]
    constructor
    · rintro ⟨t, rfl, ht, hc⟩
      exact .two hb ht ((eq_ofNat_iff (by omega)).1 hc)
    · intro hform
      cases hform with
      | two _ ht hc => exact ⟨_, rfl, ht, (eq_ofNat_iff (by omega)).2 hc⟩
      | one | three | four => omega
  | three hb hlow hhigh =>
    simp only [Partial.completes_more, Partial.completes_last, Nat.zero_add]
    constructor
    · rintro ⟨t, _, rfl, ht, t', rfl, ht', hc⟩
      -- The range of the second byte shuts out overlong forms and surrogates.
      have hcode := (eq_ofNat_iff (by split_ifs at hlow hhigh <;> omega)).1 hc
      exact .three hb (by split_ifs at hlow hhigh <;> omega) ht' hcode
        (by split_ifs at hlow hhigh <;> omega)
    · intro hform
      cases hform with
      | three _ ht ht' hc hlong =>
        refine ⟨_, _, rfl, ⟨?_, ?_⟩, _, rfl, ht', (eq_ofNat_iff (by omega)).2 hc⟩
        · split_ifs at hlow <;> omega
        · split_ifs at hhigh <;> omega
      | one | two | four => omega
  | four hb hlow hhigh =>
    simp only [Partial.completes_more, Partial.completes_last, Nat.zero_add, Nat.reduceAdd]
    constructor
    · rintro ⟨t, _, rfl, ht, t', _, rfl, ht', t'', rfl, ht'', hc⟩
      -- The range of the second byte shuts out overlong forms and numbers that are no code.
      have hcode := (eq_ofNat_iff (by split_ifs at hlow hhigh <;> omega)).1 hc
      exact .four hb (by split_ifs at hlow hhigh <;> omega) ht' ht'' hcode
        (by split_ifs at hlow hhigh <;> omega)
    · intro hform
      cases hform with
      | four _ ht ht' ht'' hc hlong =>
        refine ⟨_, _, rfl, ⟨?_, ?_⟩, _, _, rfl, ht', _, rfl, ht'', (eq_ofNat_iff (by omega)).2 hc⟩
        · split_ifs at hlow <;> omega
        · split_ifs at hhigh <;> omega
      | one | two | three => omega

theorem Partial.next_live (p : Partial) (b : UInt8) : (p.next b).low ≤ (p.next b).high := by
  show (0x80 : UInt8) ≤ 0xBF
  decide

theorem live_of_leads (h : Leads b p) : p.low ≤ p.high ∧ p.taken = 1 := by
  rw [UInt8.le_iff_toNat_le]
  cases h with
  | two => exact ⟨Nat.le_of_ble_eq_true rfl, rfl⟩
  | three hb hlow hhigh | four hb hlow hhigh =>
    refine ⟨?_, rfl⟩
    dsimp only
    split_ifs at hlow hhigh <;> omega

/-! ## What stands before the bytes to come -/

/-- The longest beginning of a list that has a property. -/
structure LongestPrefix {α : Type} (φ : List α → Prop) (l w : List α) : Prop where
  isPrefix : w <+: l
  holds : φ w
  length_le : ∀ v, v <+: l → φ v → v.length ≤ w.length

/-- The bytes that take a begun character to its end, or with none begun all of its bytes. -/
def Ends : Option Partial → List UInt8 → Char → Prop
  | none, w, c => String.utf8EncodeChar c = w
  | some p, w, c => p.Completes w c

/-- Bytes that do not yet take a character to its end. -/
def Admits (begun : Option Partial) (w : List UInt8) : Prop :=
  ∃ c more, more ≠ [] ∧ Ends begun (w ++ more) c

/-- Number of bytes of the begun character. -/
def taken (begun : Option Partial) : Nat :=
  begun.elim 0 Partial.taken

variable {begun begun' : Option Partial}

theorem not_ends_nil : ¬ Ends begun [] c := by
  cases begun with
  | none => exact String.utf8EncodeChar_ne_nil
  | some p => exact id

/-- What decoding comes to first: a whole character, the end of the bytes within one, or a byte that
    cannot go on. -/
inductive Front (begun : Option Partial) (bs : List UInt8) : Prop where
  | whole {c : Char} {w rest : List UInt8} (hbs : bs = w ++ rest) (hw : Ends begun w c) :
      Front begun bs
  | broken (hbegun : Admits begun bs)
      (hdecode : ∀ index, decodeFrom begun index bs = .error (.incomplete index)) : Front begun bs
  | refused {u : List UInt8} (hbegun : ¬ Admits begun bs)
      (hnone : ∀ c w, Ends begun w c → ¬ w <+: bs) (hu : LongestPrefix (Admits begun) bs u)
      (hdecode : ∀ index, decodeFrom begun index bs =
        .error (.invalid (max 1 (taken begun + u.length)) index)) : Front begun bs

/-- A byte after which the same bytes are to come takes the front along. -/
theorem Front.cons (hends : ∀ w c, Ends begun (b :: w) c ↔ Ends begun' w c)
    (hdecode : ∀ index, decodeFrom begun index (b :: bs) = decodeFrom begun' index bs)
    (htaken : taken begun' = taken begun + 1) (h : Front begun' bs) : Front begun (b :: bs) := by
  -- Whatever is completed behind the byte is completed with it, and the other way round.
  have hadmits : ∀ w, Admits begun (b :: w) ↔ Admits begun' w := by
    intro w
    simp only [Admits, List.cons_append, hends]
  cases h with
  | whole hbs hw => exact .whole (w := b :: _) (by rw [hbs]; rfl) ((hends _ _).2 hw)
  | broken hbegun hdecode' =>
    exact .broken ((hadmits bs).2 hbegun) fun index => (hdecode index).trans (hdecode' index)
  | @refused u hbegun hnone hu hdecode' =>
    refine .refused (u := b :: u) (fun h => hbegun ((hadmits bs).1 h)) ?_ ⟨?_, ?_, ?_⟩ ?_
    · intro c w hw hprefix
      cases w with
      -- A character that ends here would have been completed before the byte.
      | nil => exact not_ends_nil hw
      | cons b' w =>
        obtain ⟨rfl, htail⟩ := List.cons_prefix_cons.1 hprefix
        exact hnone c w ((hends w c).1 hw) htail
    · exact List.cons_prefix_cons.2 ⟨rfl, hu.isPrefix⟩
    · exact (hadmits u).2 hu.holds
    · intro v hv hadmitsv
      cases v with
      | nil => exact Nat.zero_le _
      | cons b' v =>
        obtain ⟨rfl, htail⟩ := List.cons_prefix_cons.1 hv
        exact Nat.succ_le_succ (hu.length_le v htail ((hadmits v).1 hadmitsv))
    · intro index
      rw [hdecode, hdecode', htaken, List.length_cons, Nat.add_assoc, Nat.add_comm 1]

/-! ## Steps of decoding -/

theorem decodeFrom_ascii (hb : b < 0x80) :
    decodeFrom none i (b :: bs) =
      (decodeFrom none (i + 1) bs).map (Char.ofUInt8 b :: ·) := by
  rw [decodeFrom, if_pos hb]

theorem decodeFrom_lead (hb : ¬ b < 0x80) (h : lead? b = some p) :
    decodeFrom none i (b :: bs) = decodeFrom (some p) i bs := by
  rw [decodeFrom, if_neg hb, h]

theorem decodeFrom_no_lead (hb : ¬ b < 0x80) (h : lead? b = none) :
    decodeFrom none i (b :: bs) = .error (.invalid 1 i) := by
  rw [decodeFrom, if_neg hb, h]

/-- The last byte of a character completes it. -/
theorem decodeFrom_last (hb : p.low ≤ b ∧ b ≤ p.high) (h : p.missing ≤ 1) :
    decodeFrom (some p) i (b :: bs) =
      (decodeFrom none (i + p.taken + 1) bs).map (Char.ofNat (p.next b).code :: ·) := by
  rw [decodeFrom, if_pos hb]
  exact if_pos h

theorem decodeFrom_more (hb : p.low ≤ b ∧ b ≤ p.high) (h : ¬ p.missing ≤ 1) :
    decodeFrom (some p) i (b :: bs) = decodeFrom (some (p.next b)) i bs := by
  rw [decodeFrom, if_pos hb]
  exact if_neg h

/-- A byte that does not follow ends what was begun as a defect. -/
theorem decodeFrom_refused (hb : ¬ (p.low ≤ b ∧ b ≤ p.high)) :
    decodeFrom (some p) i (b :: bs) = .error (.invalid p.taken i) := by
  rw [decodeFrom, if_neg hb]

/-- A begun character is decoded from the bytes that complete it. -/
theorem decodeFrom_of_completes (h : p.Completes tail c) :
    decodeFrom (some p) i (tail ++ rest) =
      (decodeFrom none (i + p.taken + tail.length) rest).map (c :: ·) := by
  -- On the bytes that are missing: each of them is in the range that is open.
  induction tail generalizing p with
  | nil => exact absurd h Partial.not_completes_nil
  | cons b tail ih =>
    obtain ⟨hb, h⟩ := h
    rw [List.cons_append]
    by_cases hlast : p.missing ≤ 1
    · rw [if_pos hlast] at h
      obtain ⟨rfl, rfl⟩ := h
      exact decodeFrom_last hb hlast
    · rw [if_neg hlast] at h
      have htaken : i + (p.next b).taken + tail.length =
          i + p.taken + (b :: tail).length := by
        rw [List.length_cons]
        show i + (p.taken + 1) + tail.length = _
        omega
      rw [decodeFrom_more hb hlast, ih h, htaken]

/-- A character at the front is decoded, and then what is behind it. -/
theorem decodeFrom_encodeChar (c : Char) (rest : List UInt8) (i : Nat) :
    decodeFrom none i (String.utf8EncodeChar c ++ rest) =
      (decodeFrom none (i + (String.utf8EncodeChar c).length) rest).map (c :: ·) := by
  -- A first byte below 0x80 is the character; another opens a form that the rest completes.
  cases hbytes : String.utf8EncodeChar c with
  | nil => exact absurd hbytes String.utf8EncodeChar_ne_nil
  | cons b tail =>
    rw [List.cons_append]
    by_cases hb : b < 0x80
    · obtain ⟨hone, rfl⟩ := Text.utf8EncodeChar_of_ascii (congrArg (·[0]?) hbytes) hb
      obtain ⟨-, rfl⟩ := List.cons.inj (hbytes.symm.trans hone)
      exact decodeFrom_ascii hb
    · cases hlead : lead? b with
      | none => exact absurd hbytes (encodeChar_ne_of_lead?_eq_none hb hlead)
      | some p =>
        have hleads := leads_of_lead? hlead
        rw [decodeFrom_lead hb hlead, decodeFrom_of_completes ((completes_iff hleads).2 hbytes),
          (live_of_leads hleads).2, List.length_cons, Nat.add_assoc, Nat.add_comm 1]

/-! ## Fronts -/

/-- A begun character can be completed, with the least byte each time. -/
theorem exists_completes (hp : p.low ≤ p.high) : ∃ c tail, p.Completes tail c := by
  -- The least byte of each range completes some character in the end.
  induction hmissing : p.missing using Nat.strongRecOn generalizing p with
  | ind n ih =>
    by_cases hlast : p.missing ≤ 1
    · have hone : p.Completes [p.low] (Char.ofNat (p.next p.low).code) :=
        ⟨⟨UInt8.le_refl _, hp⟩, by rw [if_pos hlast]; exact ⟨rfl, rfl⟩⟩
      exact ⟨_, _, hone⟩
    · have hless : (p.next p.low).missing < n := by
        show p.missing - 1 < n
        omega
      obtain ⟨c, tail, h⟩ := ih _ hless (p.next_live p.low) rfl
      exact ⟨c, p.low :: tail, ⟨UInt8.le_refl _, hp⟩, by rwa [if_neg hlast]⟩

theorem admits_nil (hp : p.low ≤ p.high) : Admits (some p) [] := by
  obtain ⟨c, tail, h⟩ := exists_completes hp
  refine ⟨c, tail, ?_, h⟩
  rintro rfl
  exact Partial.not_completes_nil h

/-- Where nothing goes on with the next byte, decoding is refused there. -/
theorem Front.refuse (hnone : ∀ w c, ¬ Ends begun (b :: w) c) (hnil : Admits begun [])
    (hdecode : ∀ index,
      decodeFrom begun index (b :: bs) = .error (.invalid (max 1 (taken begun)) index)) :
    Front begun (b :: bs) := by
  -- Nothing begins with the byte, so what is good ends in front of it.
  have hadmits : ∀ w, ¬ Admits begun (b :: w) := by
    rintro w ⟨c, more, -, h⟩
    exact hnone _ c h
  refine .refused (u := []) (hadmits bs) ?_ ⟨List.nil_prefix, hnil, ?_⟩ hdecode
  · intro c w hw hprefix
    cases w with
    | nil => exact not_ends_nil hw
    | cons b' w =>
      obtain ⟨rfl, -⟩ := List.cons_prefix_cons.1 hprefix
      exact hnone w c hw
  · intro v hv hadmitsv
    cases v with
    | nil => exact Nat.le_refl 0
    | cons b' v =>
      obtain ⟨rfl, -⟩ := List.cons_prefix_cons.1 hv
      exact absurd hadmitsv (hadmits v)

/-- What follows on an open character: it is completed, broken off or refused. -/
theorem front_some (hp : p.low ≤ p.high) (htaken : 1 ≤ p.taken) (bs : List UInt8) :
    Front (some p) bs := by
  -- The byte is refused, completes the character or leaves one less missing.
  induction bs generalizing p with
  | nil => exact .broken (admits_nil hp) fun index => rfl
  | cons b bs ih =>
    by_cases hb : p.low ≤ b ∧ b ≤ p.high
    · by_cases hlast : p.missing ≤ 1
      · have hone : p.Completes [b] (Char.ofNat (p.next b).code) :=
          ⟨hb, by rw [if_pos hlast]; exact ⟨rfl, rfl⟩⟩
        exact .whole (w := [b]) rfl hone
      · have hends : ∀ w c, Ends (some p) (b :: w) c ↔ Ends (some (p.next b)) w c := by
          intro w c
          rw [Ends, Partial.Completes, if_neg hlast]
          exact and_iff_right hb
        refine (ih (p.next_live b) (Nat.le_add_left 1 _)).cons hends ?_ rfl
        exact fun index => decodeFrom_more hb hlast
    · refine .refuse (fun w c h => hb h.1) (admits_nil hp) fun index => ?_
      rw [decodeFrom_refused hb]
      exact congrArg (fun n => Except.error (Defect.invalid n index)) (Nat.max_eq_right htaken).symm

theorem encodeChar_ofUInt8 (hb : b < 0x80) : String.utf8EncodeChar (Char.ofUInt8 b) = [b] := by
  refine hasForm_iff.1 (.one hb ?_)
  exact UInt8.toNat_toUInt32 b

theorem front_none (b : UInt8) (bs : List UInt8) : Front none (b :: bs) := by
  by_cases hb : b < 0x80
  · exact .whole (w := [b]) rfl (encodeChar_ofUInt8 hb)
  -- A byte that begins no character is refused at once.
  · cases hlead : lead? b with
    | none =>
      refine .refuse (fun w c => encodeChar_ne_of_lead?_eq_none hb hlead) ?_ fun index => ?_
      · exact ⟨'a', [97], List.cons_ne_nil _ _, (by decide : String.utf8EncodeChar 'a' = [97])⟩
      · exact decodeFrom_no_lead hb hlead
    | some p =>
      have hleads := leads_of_lead? hlead
      obtain ⟨hp, htaken⟩ := live_of_leads hleads
      have hends : ∀ w c, Ends none (b :: w) c ↔ Ends (some p) w c :=
        fun w c => (completes_iff hleads).symm
      refine (front_some hp (Nat.le_of_eq htaken.symm) bs).cons hends ?_ htaken
      exact fun index => decodeFrom_lead hb hlead

/-! ## Whole texts -/

/-- Bytes that are the form of a text. -/
def WellFormed (bytes : List UInt8) : Prop :=
  ∃ cs, bytes = encode cs

/-- Bytes that some character has at its front and more behind them. -/
def IsBegun (w : List UInt8) : Prop :=
  ∃ c more, more ≠ [] ∧ String.utf8EncodeChar c = w ++ more

/-- Where a defect is. -/
def Defect.index : Defect → Nat
  | invalid _ index => index
  | incomplete index => index

/-- What is wrong with bytes that no character stands at the front of, wherever they stand. -/
inductive Defective (rest : List UInt8) : (Nat → Defect) → Prop where
  | incomplete (hbegun : IsBegun rest) : Defective rest .incomplete
  | invalid {u : List UInt8} (hbegun : ¬ IsBegun rest) (hu : LongestPrefix IsBegun rest u) :
      Defective rest (.invalid (max 1 u.length))

theorem index_of_defective {defect : Nat → Defect} (h : Defective rest defect) (index : Nat) :
    (defect index).index = index := by
  cases h <;> rfl

/-- Encoded text in front is decoded and what stands behind it decoded on. -/
theorem decodeFrom_encode (cs : List Char) (rest : List UInt8) (i : Nat) :
    decodeFrom none i (encode cs ++ rest) =
      (decodeFrom none (i + (encode cs).length) rest).map (cs ++ ·) := by
  induction cs generalizing i with
  | nil =>
    show decodeFrom none i rest = (decodeFrom none i rest).map ([] ++ ·)
    cases decodeFrom none i rest <;> rfl
  | cons c cs ih =>
    rw [encode_cons, List.append_assoc, decodeFrom_encodeChar, ih, List.length_append,
      Nat.add_assoc]
    cases decodeFrom none _ rest <;> rfl

/-- Bytes are the form of a text, which decoding finds, or a defect comes behind one. -/
theorem decodeFrom_cases (bytes : List UInt8) :
    (∃ cs, bytes = encode cs ∧ ∀ i, decodeFrom none i bytes = .ok cs) ∨
      ∃ cs rest defect, bytes = encode cs ++ rest ∧ Defective rest defect ∧
        ∀ i, decodeFrom none i bytes = .error (defect (i + (encode cs).length)) := by
  -- On the number of bytes; what is behind a character at the front is fewer.
  induction hlength : bytes.length using Nat.strongRecOn generalizing bytes with
  | ind n ih =>
    cases bytes with
    | nil => exact .inl ⟨[], rfl, fun i => by rw [decodeFrom]⟩
    | cons b bs =>
      cases front_none b bs with
      | @whole c w rest hbs hw =>
        have hw : String.utf8EncodeChar c = w := hw
        subst hw
        have hpos : 0 < (String.utf8EncodeChar c).length :=
          List.length_pos_iff.2 String.utf8EncodeChar_ne_nil
        have hless : rest.length < n := by
          rw [← hlength, hbs, List.length_append]
          omega
        rw [hbs]
        rcases ih rest.length hless rest rfl with
          ⟨cs, rfl, hdecode⟩ | ⟨cs, rest', defect, rfl, hdefect, hdecode⟩
        · refine .inl ⟨c :: cs, rfl, fun i => ?_⟩
          rw [decodeFrom_encodeChar, hdecode]
          rfl
        · refine .inr ⟨c :: cs, rest', defect, ?_, hdefect, fun i => ?_⟩
          · rw [encode_cons, List.append_assoc]
          · rw [decodeFrom_encodeChar, hdecode, encode_cons, List.length_append, Nat.add_assoc]
            rfl
      | broken hbegun hdecode => exact .inr ⟨[], b :: bs, _, rfl, .incomplete hbegun, hdecode⟩
      | @refused u hbegun hnone hu hdecode =>
        refine .inr ⟨[], b :: bs, _, rfl, .invalid hbegun hu, fun i => ?_⟩
        rw [hdecode, taken, Option.elim_none, Nat.zero_add]
        rfl

/-- Every text reads back from its encoding. -/
theorem decode_encode (cs : List Char) : decode (encode cs) = .ok cs := by
  have h := decodeFrom_encode cs [] 0
  rw [List.append_nil] at h
  rw [decode, h]
  show Except.ok (cs ++ []) = _
  rw [List.append_nil]

/-- Decoding finds just the text that the bytes are the form of. -/
theorem decode_eq_ok_iff {bytes : List UInt8} {cs : List Char} :
    decode bytes = .ok cs ↔ bytes = encode cs := by
  constructor
  · intro h
    rcases decodeFrom_cases bytes with ⟨cs', rfl, hdecode⟩ | ⟨cs', rest, defect, rfl, -, hdecode⟩
    · rw [decode, hdecode] at h
      rw [Except.ok.inj h]
    · rw [decode, hdecode] at h
      cases h
  · rintro rfl
    exact decode_encode cs

/-- A defect does not stand in front of where decoding began. -/
theorem le_index_of_decodeFrom {bytes : List UInt8} {defect : Defect}
    (h : decodeFrom none i bytes = .error defect) : i ≤ defect.index := by
  rcases decodeFrom_cases bytes with ⟨cs, -, hdecode⟩ | ⟨cs, rest, defect', -, hdefect, hdecode⟩
  · rw [hdecode] at h
    cases h
  · rw [hdecode] at h
    rw [← Except.error.inj h, index_of_defective hdefect]
    exact Nat.le_add_right i _

/-- Bytes that cannot be decoded have a defect behind the longest text that they begin with. -/
theorem exists_of_decode_eq_error {bytes : List UInt8} {defect : Defect}
    (h : decode bytes = .error defect) :
    ∃ v rest d, bytes = v ++ rest ∧ LongestPrefix WellFormed bytes v ∧ Defective rest d ∧
      defect = d v.length := by
  rcases decodeFrom_cases bytes with ⟨cs, -, hdecode⟩ | ⟨cs, rest, d, hbytes, hdefect, hdecode⟩
  · rw [decode, hdecode] at h
    cases h
  · have hd : defect = d (encode cs).length := by
      rw [decode, hdecode, Nat.zero_add] at h
      exact (Except.error.inj h).symm
    refine ⟨encode cs, rest, d, hbytes, ⟨?_, ⟨cs, rfl⟩, ?_⟩, hdefect, hd⟩
    · rw [hbytes]
      exact List.prefix_append _ _
    · -- Behind a longer text the defect would have a larger index.
      rintro _ ⟨rest', hrest'⟩ ⟨cs', rfl⟩
      rw [decode, ← hrest', decodeFrom_encode, Nat.zero_add] at h
      cases htail : decodeFrom none (encode cs').length rest' with
      | ok cs'' =>
        rw [htail] at h
        cases h
      | error defect' =>
        rw [htail] at h
        have hle := le_index_of_decodeFrom htail
        rwa [Except.error.inj h, hd, index_of_defective hdefect] at hle

end Lexis.Utf8

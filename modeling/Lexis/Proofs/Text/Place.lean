/-
  Lexis.Proofs.Text.Place

  Byte offsets of a string seen from its list of characters.

  A string that reads `u ++ r` has a position at the size of `u`. Counting characters from there,
  cutting from there and indexing a run of ASCII bytes from there all read `r`.
-/

import Lexis.Text.Bytes
import Lexis.Text.Measure
import Lexis.Text.Utf8
import Mathlib.Data.List.Basic

namespace Lexis.Text

/-! ## The size of a string -/

/-- The bytes of a text are those of its encoding. -/
theorem byteSize_eq_length_encode (cs : List Char) : byteSize cs = (Utf8.encode cs).length := by
  induction cs with
  | nil => rfl
  | cons c cs ih =>
    rw [byteSize_cons, ih]
    simp

theorem toByteArray_eq_encode (s : String) :
    s.toByteArray = (Utf8.encode s.toList).toByteArray := by
  conv_lhs => rw [← String.ofList_toList (s := s)]
  rfl

/-- The size of a text is what its string says it is. -/
theorem byteSize_toList (s : String) : byteSize s.toList = s.utf8ByteSize := by
  rw [byteSize_eq_length_encode, ← String.size_toByteArray, toByteArray_eq_encode]
  simp

/-- Only the empty text has no bytes. -/
theorem byteSize_eq_zero {cs : List Char} : byteSize cs = 0 ↔ cs = [] := by
  cases cs with
  | nil => simp
  | cons c cs =>
    have hc : 0 < c.utf8Size := Char.utf8Size_pos c
    rw [byteSize_cons]
    constructor
    · intro h
      omega
    · rintro ⟨⟩

theorem lineFeeds_le_of_isPrefix {u v : List Char} (h : u <+: v) : lineFeeds u ≤ lineFeeds v :=
  h.sublist.count_le '\n'

/-! ## Bytes -/

theorem byteAt?_eq_encode (s : String) (i : Nat) : byteAt? s i = (Utf8.encode s.toList)[i]? := by
  -- Both are out of range at the same indices.
  have hsize : s.utf8ByteSize = (Utf8.encode s.toList).length := by
    rw [← byteSize_toList, byteSize_eq_length_encode]
  unfold byteAt?
  split
  next h =>
    have hi : i < (Utf8.encode s.toList).length := by
      rw [← hsize]
      exact h
    rw [List.getElem?_eq_getElem hi]
    simp only [String.getUTF8Byte, toByteArray_eq_encode]
    simp
  next h =>
    have hi : (Utf8.encode s.toList).length ≤ i := by
      rw [← hsize]
      exact Nat.not_lt.1 h
    rw [List.getElem?_eq_none hi]

/-- A character whose first byte is ASCII has no other byte. -/
theorem utf8EncodeChar_of_ascii {c : Char} {b : UInt8}
    (h : (String.utf8EncodeChar c)[0]? = some b) (hb : b < 0x80) :
    String.utf8EncodeChar c = [b] ∧ c = Char.ofUInt8 b := by
  have hlt : b.toNat < 128 := hb
  unfold String.utf8EncodeChar at h ⊢
  simp only at h ⊢
  split at h
  next hone =>
    rw [if_pos hone]
    simp only [List.getElem?_cons_zero, Option.some.injEq] at h
    subst h
    refine ⟨rfl, ?_⟩
    apply Char.ext
    apply UInt32.toNat_inj.1
    show c.val.toNat = c.val.toNat.toUInt8.toUInt32.toNat
    rw [UInt8.toNat_toUInt32, UInt8.toNat_ofNat']
    omega
  · -- A lead byte of a longer form is at least `0xC0`.
    exfalso
    split at h
    · simp only [List.getElem?_cons_zero, Option.some.injEq] at h
      rw [← h, UInt8.toNat_ofNat'] at hlt
      omega
    · split at h
      · simp only [List.getElem?_cons_zero, Option.some.injEq] at h
        rw [← h, UInt8.toNat_ofNat'] at hlt
        omega
      · simp only [List.getElem?_cons_zero, Option.some.injEq] at h
        rw [← h, UInt8.toNat_ofNat'] at hlt
        omega

/-- In a run of ASCII bytes the bytes and the characters are the same. -/
theorem getElem?_of_ascii {cs : List Char} {n : Nat}
    (h : ∀ i ≤ n, ∃ b, (Utf8.encode cs)[i]? = some b ∧ b < 0x80) :
    cs[n]? = (Utf8.encode cs)[n]?.map Char.ofUInt8 := by
  induction n generalizing cs with
  | zero =>
    obtain ⟨b, hb, hlt⟩ := h 0 (Nat.le_refl 0)
    cases cs with
    | nil => cases hb
    | cons c cs =>
      have hne : 0 < (String.utf8EncodeChar c).length := by simp [Char.utf8Size_pos]
      rw [Utf8.encode_cons, List.getElem?_append_left hne] at hb ⊢
      obtain ⟨-, hc⟩ := utf8EncodeChar_of_ascii hb hlt
      rw [hb, hc]
      rfl
  | succ n ih =>
    obtain ⟨b, hb, hlt⟩ := h 0 (Nat.zero_le _)
    cases cs with
    | nil => cases hb
    | cons c cs =>
      have hne : 0 < (String.utf8EncodeChar c).length := by simp [Char.utf8Size_pos]
      rw [Utf8.encode_cons, List.getElem?_append_left hne] at hb
      -- The first character is one byte, so bytes and characters behind it are shifted alike.
      obtain ⟨hone, -⟩ := utf8EncodeChar_of_ascii hb hlt
      have hshift : ∀ i : Nat, (Utf8.encode (c :: cs))[i + 1]? = (Utf8.encode cs)[i]? := by
        intro i
        rw [Utf8.encode_cons, hone]
        rfl
      rw [hshift, List.getElem?_cons_succ]
      apply ih
      intro i hi
      rw [← hshift]
      exact h (i + 1) (by omega)

/-- A character found by indexing bytes is the one found by counting characters. -/
theorem getElem?_of_asciiAt? {s : String} {u r : List Char} {n : Nat} {x : Char}
    (hs : s.toList = u ++ r) (h : asciiAt? s (byteSize u) n = some x) : r[n]? = some x := by
  unfold asciiAt? at h
  split at h
  next hwindow =>
    -- The byte behind a cut of the text is that of the text behind the cut.
    have hbyte : ∀ i : Nat, byteAt? s (byteSize u + i) = (Utf8.encode r)[i]? := by
      intro i
      rw [byteAt?_eq_encode, hs, Utf8.encode_append, byteSize_eq_length_encode,
        List.getElem?_append_right (Nat.le_add_right _ _), Nat.add_sub_cancel_left]
    rw [Bool.and_eq_true, List.all_eq_true] at hwindow
    -- The window is ASCII, so its bytes are its characters.
    have hascii : ∀ i ≤ n, ∃ b, (Utf8.encode r)[i]? = some b ∧ b < 0x80 := by
      intro i hi
      have hany := hwindow.2 i (List.mem_range.2 (by omega))
      rw [hbyte] at hany
      simpa [Option.any_eq_true] using hany
    rw [getElem?_of_ascii hascii, ← hbyte, h]
  · cases h

/-! ## Positions -/

theorem isValid_byteSize {s : String} {u r : List Char} (h : s.toList = u ++ r) :
    (⟨byteSize u⟩ : String.Pos.Raw).IsValid s := by
  rw [String.Pos.Raw.isValid_iff_exists_append]
  refine ⟨String.ofList u, String.ofList r, ?_, ?_⟩
  · rw [← String.ofList_append, ← h, String.ofList_toList]
  · rw [String.Pos.Raw.ext_iff, String.byteIdx_rawEndPos, ← byteSize_toList, String.toList_ofList]

/-- The position at the size of `u` stands between `u` and the rest. -/
theorem splits_pos {s : String} {u r : List Char} (h : s.toList = u ++ r) :
    (s.pos ⟨byteSize u⟩ (isValid_byteSize h)).Splits (String.ofList u) (String.ofList r) where
  eq_append := by rw [← String.ofList_append, ← h, String.ofList_toList]
  offset_eq_rawEndPos := by
    rw [String.offset_pos, String.Pos.Raw.ext_iff, String.byteIdx_rawEndPos, ← byteSize_toList,
      String.toList_ofList]

theorem nth?_of_splits {s : String} {u r : List Char} {p : s.Pos}
    (h : p.Splits (String.ofList u) (String.ofList r)) (n : Nat) : nth? p n = r[n]? := by
  -- On the steps of the look ahead; past the end each of them answers nothing.
  induction n generalizing u r p with
  | zero =>
    cases r with
    | nil => rw [nth?, String.Pos.get?_eq_none (h.eq_endPos_iff.2 rfl), List.getElem?_nil]
    | cons c r =>
      rw [String.ofList_cons] at h
      have hp : p ≠ s.endPos := h.ne_endPos_of_singleton
      rw [nth?, String.Pos.get?_eq_some_get hp, h.next.get_eq_of_singleton, List.getElem?_cons_zero]
  | succ n ih =>
    cases r with
    | nil =>
      have hp : p = s.endPos := h.eq_endPos_iff.2 rfl
      rw [nth?, dif_pos hp, List.getElem?_nil]
    | cons c r =>
      rw [String.ofList_cons] at h
      have hp : p ≠ s.endPos := h.ne_endPos_of_singleton
      rw [nth?, dif_neg hp, List.getElem?_cons_succ]
      apply ih (u := u ++ [c])
      simpa using h.next

theorem extract_of_splits {s : String} {u v r : List Char} {p q : s.Pos}
    (hp : p.Splits (String.ofList u) (String.ofList (v ++ r)))
    (hq : q.Splits (String.ofList (u ++ v)) (String.ofList r)) :
    s.extract p q = String.ofList v := by
  obtain ⟨hle, hcopy⟩ := String.copy_slice_eq_iff_splits.2
    ⟨String.ofList u, String.ofList r, by simpa using hp, by simpa using hq⟩
  rw [← hcopy]
  simp [String.Slice.copy]

end Lexis.Text

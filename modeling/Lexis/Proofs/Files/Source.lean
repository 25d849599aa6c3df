/-
  Lexis.Proofs.Files.Source

  Which files hold a source, and which source it is.

  A file holds a source just if its bytes are UTF-8. One mark of the byte order may stand before the
  source and is no part of it; any other is. Where a file holds none, the failure tells where its
  bytes cease to be UTF-8, and how.
-/

import Lexis.Files.Basic
import Lexis.Proofs.Text.Utf8

namespace Lexis

open Utf8

/-- The bytes of the mark that may stand before a source. -/
def Utf8.markBytes : List UInt8 :=
  [0xEF, 0xBB, 0xBF]

namespace Utf8

/-- The mark in front of a text is its three bytes in front of the text's. -/
theorem encode_mark_cons (cs : List Char) :
    encode (byteOrderMark :: cs) = markBytes ++ encode cs := by
  have hmark : String.utf8EncodeChar byteOrderMark = markBytes := by decide
  rw [encode_cons, hmark]

/-- Just the texts that start with the mark start with its bytes. -/
theorem markBytes_isPrefix_encode {cs : List Char} :
    markBytes <+: encode cs ↔ ∃ cs', cs = byteOrderMark :: cs' := by
  constructor
  · rintro ⟨r, hr⟩
    -- The bytes of the mark decode to the mark, and decoding is unique.
    have hdecode := decode_encode cs
    have hmark : markBytes = String.utf8EncodeChar byteOrderMark := by decide
    rw [decode, ← hr, hmark, decodeFrom_encodeChar] at hdecode
    cases htail : decodeFrom none (0 + (String.utf8EncodeChar byteOrderMark).length) r with
    | error defect =>
      rw [htail] at hdecode
      cases hdecode
    | ok cs' =>
      rw [htail] at hdecode
      exact ⟨cs', (Except.ok.inj hdecode).symm⟩
  · rintro ⟨cs', rfl⟩
    rw [encode_mark_cons]
    exact List.prefix_append _ _

/-- A text that does not begin with the mark is left as it is. -/
theorem dropByteOrderMark_of_ne {cs : List Char} (h : cs.head? ≠ some byteOrderMark) :
    dropByteOrderMark cs = cs := by
  cases cs with
  | nil => rfl
  | cons c cs => exact if_neg fun hc => h (congrArg some hc)

/-- A mark in front is removed, and no more than that one. -/
theorem dropByteOrderMark_mark_cons (cs : List Char) :
    dropByteOrderMark (byteOrderMark :: cs) = cs := by
  rw [dropByteOrderMark, if_pos rfl]

/-- The form of a text is that of the text without the mark, behind the mark if there is one. -/
theorem encode_dropByteOrderMark (cs : List Char) :
    encode cs = (if markBytes <+: encode cs then markBytes else []) ++
      encode (dropByteOrderMark cs) := by
  by_cases hmark : markBytes <+: encode cs
  · obtain ⟨cs', rfl⟩ := markBytes_isPrefix_encode.1 hmark
    rw [if_pos hmark, dropByteOrderMark_mark_cons, encode_mark_cons]
  · have hhead : cs.head? ≠ some byteOrderMark := by
      intro hhead
      obtain ⟨cs', rfl⟩ := List.head?_eq_some_iff.1 hhead
      exact hmark (markBytes_isPrefix_encode.2 ⟨cs', rfl⟩)
    rw [if_neg hmark, dropByteOrderMark_of_ne hhead, List.nil_append]

end Utf8

namespace Files

variable {files : Files} {path : String} {bytes : List UInt8}

/-- How the file at a path with these bytes is read as a source. -/
structure ReadAs (files : Files) (path : String) (bytes : List UInt8) : Prop where
  exists_iff : (∃ source, files.readSource path = .ok source) ↔ WellFormed bytes
  /-- The bytes are the form of the source, behind the mark if they start with it. -/
  eq_ok_iff : ∀ source, files.readSource path = .ok source ↔
    bytes = (if markBytes <+: bytes then markBytes else []) ++ encode source.toList
  /-- One mark is left out, whatever is behind it. -/
  marked : ∀ cs, bytes = markBytes ++ encode cs → files.readSource path = .ok (String.ofList cs)
  /-- Without a mark the source is the same. -/
  unmarked : ∀ cs, cs.head? ≠ some byteOrderMark → bytes = encode cs →
    files.readSource path = .ok (String.ofList cs)
  /-- The failure names the length of the longest text that the bytes start with. The rest of them
      is the beginning of a character, or else of the rest the longest such beginning is blamed. -/
  failure : ¬ WellFormed bytes → ∃ v rest f, bytes = v ++ rest ∧ LongestPrefix WellFormed bytes v ∧
    files.readSource path = .error f ∧ f.category = .fileOperation ∧
    ((IsBegun rest ∧ f.detail = "Source is not valid UTF-8: " ++ path ++ ": " ++
        ("incomplete utf-8 byte sequence from index " ++ toString v.length)) ∨
      (¬ IsBegun rest ∧ ∃ u, LongestPrefix IsBegun rest u ∧
        f.detail = "Source is not valid UTF-8: " ++ path ++ ": " ++
          ("invalid utf-8 sequence of " ++ toString (max 1 u.length) ++ " bytes from index " ++
            toString v.length)))

/-- A source that is read is the text the file's bytes encode, less its mark. -/
theorem readSource_eq_ok_iff (h : files path = .file bytes) {source : String} :
    files.readSource path = .ok source ↔
      ∃ cs, bytes = encode cs ∧ source = String.ofList (dropByteOrderMark cs) := by
  simp only [← decode_eq_ok_iff, readSource, h]
  cases hdecode : decode bytes with
  | error defect => simp
  | ok cs => simp [eq_comm]

/-- A file is read as its bytes say, and the mark is put back where it was. -/
theorem readSource_eq_ok_iff_bytes (h : files path = .file bytes) {source : String} :
    files.readSource path = .ok source ↔
      bytes = (if markBytes <+: bytes then markBytes else []) ++ encode source.toList := by
  rw [readSource_eq_ok_iff h]
  constructor
  · rintro ⟨cs, rfl, rfl⟩
    rw [String.toList_ofList]
    exact encode_dropByteOrderMark cs
  · intro hbytes
    -- Without a mark in front the text has none to remove.
    by_cases hmark : markBytes <+: bytes
    · rw [if_pos hmark, ← encode_mark_cons] at hbytes
      exact ⟨_, hbytes, by rw [dropByteOrderMark_mark_cons, String.ofList_toList]⟩
    · rw [if_neg hmark, List.nil_append] at hbytes
      have hhead : source.toList.head? ≠ some byteOrderMark := by
        intro hhead
        obtain ⟨cs, hcs⟩ := List.head?_eq_some_iff.1 hhead
        rw [hbytes] at hmark
        exact hmark (markBytes_isPrefix_encode.2 ⟨cs, hcs⟩)
      exact ⟨_, hbytes, by rw [dropByteOrderMark_of_ne hhead, String.ofList_toList]⟩

theorem readSource_of_decode_error {defect : Defect} (h : files path = .file bytes)
    (hdecode : decode bytes = .error defect) :
    files.readSource path = .error (.notUtf8 path defect) := by
  simp only [readSource, h, hdecode]

/-- What is read of a file depends on its bytes alone, which are a source just if they are UTF-8. -/
theorem readAs_of_file {files : Files} {path : String} {bytes : List UInt8}
    (h : files path = .file bytes) : ReadAs files path bytes where
  exists_iff := by
    constructor
    · rintro ⟨source, hsource⟩
      obtain ⟨cs, hbytes, -⟩ := (readSource_eq_ok_iff h).1 hsource
      exact ⟨cs, hbytes⟩
    · rintro ⟨cs, hbytes⟩
      exact ⟨_, (readSource_eq_ok_iff h).2 ⟨cs, hbytes, rfl⟩⟩
  eq_ok_iff source := readSource_eq_ok_iff_bytes h
  marked cs hbytes := by
    rw [← encode_mark_cons] at hbytes
    exact (readSource_eq_ok_iff h).2 ⟨_, hbytes, by rw [dropByteOrderMark_mark_cons]⟩
  unmarked cs hhead hbytes :=
    (readSource_eq_ok_iff h).2 ⟨cs, hbytes, by rw [dropByteOrderMark_of_ne hhead]⟩
  failure hnone := by
    cases hdecode : decode bytes with
    | ok cs => exact absurd ⟨cs, decode_eq_ok_iff.1 hdecode⟩ hnone
    | error defect =>
      -- The defect stands behind the longest good beginning, and says of what kind it is.
      obtain ⟨v, rest, d, hbytes, hv, hdefect, rfl⟩ := exists_of_decode_eq_error hdecode
      refine ⟨v, rest, _, hbytes, hv, readSource_of_decode_error h hdecode, rfl, ?_⟩
      cases hdefect with
      | incomplete hbegun => exact .inl ⟨hbegun, rfl⟩
      | invalid hbegun hu => exact .inr ⟨hbegun, _, hu, rfl⟩

/-- Two marks of which one is left out, and four bytes of which the last cannot go on a character of
    four. -/
theorem readAs_of_file_marks :
    ∃ files : Files, files "a" = .file (markBytes ++ encode ['\uFEFF', 'x']) ∧
      files "b" = .file [0x61, 0xF0, 0x9F, 0x41] ∧
      files.readSource "a" = .ok "\uFEFFx" ∧ ¬ WellFormed [0x61, 0xF0, 0x9F, 0x41] ∧
      ∃ v rest f, [0x61, 0xF0, 0x9F, 0x41] = v ++ rest ∧
        LongestPrefix WellFormed [0x61, 0xF0, 0x9F, 0x41] v ∧ files.readSource "b" = .error f ∧
        f.detail =
          "Source is not valid UTF-8: b: invalid utf-8 sequence of 2 bytes from index 1" := by
  let files : Files := fun path =>
    if path = "a" then .file (markBytes ++ encode ['\uFEFF', 'x'])
    else .file [0x61, 0xF0, 0x9F, 0x41]
  have ha : files "a" = .file (markBytes ++ encode ['\uFEFF', 'x']) := rfl
  have hb : files "b" = .file [0x61, 0xF0, 0x9F, 0x41] := rfl
  -- The text breaks off inside a character: two bytes were good, the third is not.
  have hread : files.readSource "b" = .error (.notUtf8 "b" (.invalid 2 1)) := by decide +kernel
  have hnone : ¬ WellFormed [0x61, 0xF0, 0x9F, 0x41] := by
    intro hform
    obtain ⟨source, hsource⟩ := (readAs_of_file hb).exists_iff.2 hform
    rw [hread] at hsource
    cases hsource
  obtain ⟨v, rest, f, hbytes, hv, hf, -⟩ := (readAs_of_file hb).failure hnone
  refine ⟨files, ha, hb, (readAs_of_file ha).marked _ rfl, hnone, v, rest, f, hbytes, hv, hf, ?_⟩
  rw [hread] at hf
  obtain rfl := Except.error.inj hf
  decide +kernel

end Files

end Lexis

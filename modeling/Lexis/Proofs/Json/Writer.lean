/-
  Lexis.Proofs.Json.Writer

  What is written as JSON is a JSON text of the value that was written.

  This holds of every layout that breaks lines with nothing but space and separates keys with a
  colon and space. Indentation stands between the parts of arrays and objects only, never inside a
  string.
-/

import Lexis.Json
import Lexis.Proofs.Json.Reader

namespace Lexis.Json

open Lexis.Text

/-! ## Values -/

mutual

/-- What a value stands for as JSON. -/
def value : Json → Value
  | number n => .number n
  | string s => .string s
  | array items => .array (itemValues items)
  | object fields => .object (fieldValues fields)

/-- What the items of an array stand for, in order. -/
def itemValues : List Json → List Value
  | [] => []
  | x :: xs => value x :: itemValues xs

/-- What the fields of an object stand for, each with its key. -/
def fieldValues : List (String × Json) → List (String × Value)
  | [] => []
  | (key, x) :: xs => (key, value x) :: fieldValues xs

end

theorem itemValues_eq_map (xs : List Json) : itemValues xs = xs.map value := by
  induction xs with
  | nil => rfl
  | cons x xs ih => rw [itemValues, ih, List.map_cons]

/-! ## Numbers -/

/-- The digits of a number are a text of it. -/
theorem numberText_toDigits (n : Nat) : NumberText (Nat.toDigits 10 n) n := by
  have hint : IntText (Nat.toDigits 10 n) n := by
    by_cases hn : n = 0
    · subst hn
      exact .zero
    · have hdigits : IsDigits (Nat.toDigits 10 n) :=
        ⟨Nat.toDigits_ne_nil, fun _ => isDigit_of_mem_toDigits⟩
      have htext := IntText.digits hdigits (head?_toDigits hn)
      rwa [ofDigits, Nat.ofDigitChars_toDigits (by decide) (by decide)] at htext
  have hnumber := NumberText.plain (.parts hint .none .none)
  simpa using hnumber

/-! ## Strings -/

/-- A control character has two digits, behind two zeros. -/
theorem isUnit_control {c : Char} (hc : c.toNat < 0x20) :
    IsUnit (fourDigits c.toNat) c.toNat :=
  ⟨rfl, fun _ hd => hexValue?_of_mem_fourDigits (by omega) hd, ofHex_fourDigits (by omega)⟩

/-- Each character is written in a way that denotes it. -/
theorem charText_escapeChar (c : Char) : CharText (escapeChar c) c := by
  unfold escapeChar
  split
  · exact .short (by simp [shortEscapes])
  · exact .short (by simp [shortEscapes])
  · exact .short (by simp [shortEscapes])
  · exact .short (by simp [shortEscapes])
  · exact .short (by simp [shortEscapes])
  · exact .short (by simp [shortEscapes])
  · exact .short (by simp [shortEscapes])
  -- What has no short escape is written by its code point, or as it is.
  next hquote hbackslash _ _ _ _ _ =>
    split
    next hcontrol => exact .unit (isUnit_control hcontrol)
    next hcontrol =>
      refine .plain ?_
      simp only [isPlain, Bool.and_eq_true, decide_eq_true_eq, bne_iff_ne]
      exact ⟨⟨by omega, hquote⟩, hbackslash⟩

theorem charsText_escape (cs : List Char) : CharsText (cs.flatMap escapeChar) cs := by
  induction cs with
  | nil => exact .nil
  | cons c cs ih => exact .cons (charText_escapeChar c) ih

theorem stringText_writeString (s : String) : StringText (writeString s) s :=
  .quoted (charsText_escape s.toList)

/-! ## Values -/

/-- What stands between the parts of a value is space, and a colon behind each key. -/
structure Layout.IsPlain (layout : Layout) : Prop where
  isSpace_lineBreak : ∀ depth, IsSpace (layout.lineBreak depth)
  afterKey_eq : ∃ w, IsSpace w ∧ layout.afterKey = ':' :: w

theorem compactLayout_isPlain : compactLayout.IsPlain where
  isSpace_lineBreak _ := .nil
  afterKey_eq := ⟨[], .nil, rfl⟩

/-- The pretty layout puts nothing but space there. -/
theorem prettyLayout_isPlain : prettyLayout.IsPlain where
  isSpace_lineBreak depth := by
    refine List.forall_mem_cons.2 ⟨by decide, fun c hc => ?_⟩
    rw [List.eq_of_mem_replicate hc]
    decide
  afterKey_eq := ⟨[' '], by simp [IsSpace, isSpace], rfl⟩

variable {layout : Layout}

/-- A written key denotes that key, with the space of the layout around it. -/
theorem keyText_writeString (h : layout.IsPlain) (depth : Nat) (key : String) :
    KeyText (layout.lineBreak depth ++ writeString key ++ layout.afterKey) key := by
  obtain ⟨w, hw, hafter⟩ := h.afterKey_eq
  have hkey := KeyText.colon (h.isSpace_lineBreak depth) (stringText_writeString key)
    .nil hw
  rwa [hafter, ← List.append_nil (layout.lineBreak depth ++ writeString key)]

/-- Written items, with space behind the last of them. -/
theorem exists_areParts_items (h : layout.IsPlain) (depth : Nat) {xs : List Json} (hne : xs ≠ [])
    (hxs : ∀ x ∈ xs, Denotes (write layout depth x) x.value) {w : List Char} (hw : IsSpace w) :
    ∃ ps : List (Part Unit), AreParts (fun t _ => IsSpace t) ps ∧
      itemValues xs = ps.map (·.value) ∧ writeItems layout depth xs ++ w = joined ps := by
  induction xs with
  | nil => exact absurd rfl hne
  | cons x xs ih =>
    obtain ⟨hx, hxs⟩ := List.forall_mem_cons.1 hxs
    have hbreak := h.isSpace_lineBreak depth
    -- The line break behind the last item belongs to that item.
    cases xs with
    | nil =>
      exact ⟨[⟨layout.lineBreak depth, write layout depth x, w, (), x.value⟩],
        .singleton hbreak hw hx, rfl, rfl⟩
    | cons x' xs =>
      obtain ⟨ps, hps, hvalues, htext⟩ := ih (List.cons_ne_nil _ _) hxs
      obtain ⟨p, ps, rfl⟩ := List.exists_cons_of_ne_nil hps.ne_nil
      refine ⟨⟨layout.lineBreak depth, write layout depth x, [], (), x.value⟩ :: p :: ps,
        hps.cons hbreak .nil hx, ?_, ?_⟩
      · rw [itemValues, hvalues]
        rfl
      · rw [joined_cons_cons, ← htext]
        simp [writeItems]

/-- Written fields, with space behind the last of them. -/
theorem exists_areParts_fields (h : layout.IsPlain) (depth : Nat) {fs : List (String × Json)}
    (hne : fs ≠ []) (hfs : ∀ f ∈ fs, Denotes (write layout depth f.2) f.2.value) {w : List Char}
    (hw : IsSpace w) :
    ∃ ps : List (Part String), AreParts KeyText ps ∧
      fieldValues fs = ps.map (fun p => (p.key, p.value)) ∧
      writeFields layout depth fs ++ w = joined ps := by
  induction fs with
  | nil => exact absurd rfl hne
  | cons f fs ih =>
    obtain ⟨key, x⟩ := f
    obtain ⟨hx, hfs⟩ := List.forall_mem_cons.1 hfs
    have hkey := keyText_writeString h depth key
    -- The same for fields, whose fronts hold their keys.
    cases fs with
    | nil =>
      exact ⟨[⟨layout.lineBreak depth ++ writeString key ++ layout.afterKey, write layout depth x,
        w, key, x.value⟩], .singleton hkey hw hx, rfl, rfl⟩
    | cons f' fs =>
      obtain ⟨ps, hps, hvalues, htext⟩ := ih (List.cons_ne_nil _ _) hfs
      obtain ⟨p, ps, rfl⟩ := List.exists_cons_of_ne_nil hps.ne_nil
      refine ⟨⟨layout.lineBreak depth ++ writeString key ++ layout.afterKey, write layout depth x,
        [], key, x.value⟩ :: p :: ps, hps.cons hkey .nil hx, ?_, ?_⟩
      · rw [fieldValues, hvalues]
        rfl
      · rw [joined_cons_cons, ← htext]
        simp [writeFields]

/-- Induction over a value with its items and fields. -/
theorem induction {motive : Json → Prop} (number : ∀ n, motive (number n))
    (string : ∀ s, motive (string s)) (array : ∀ xs, (∀ x ∈ xs, motive x) → motive (array xs))
    (object : ∀ fs, (∀ f ∈ fs, motive f.2) → motive (object fs)) (x : Json) : motive x := by
  match x with
  | .number n => exact number n
  | .string s => exact string s
  | .array xs => exact array xs fun x _ => Json.induction number string array object x
  | .object fs => exact object fs fun f _ => Json.induction number string array object f.2
termination_by sizeOf x
decreasing_by
  · have hlt := List.sizeOf_lt_of_mem ‹x ∈ xs›
    simp only [Json.array.sizeOf_spec]
    omega
  · have hlt := List.sizeOf_lt_of_mem ‹f ∈ fs›
    have hpair : sizeOf f = 1 + sizeOf f.1 + sizeOf f.2 := rfl
    simp only [Json.object.sizeOf_spec]
    omega

/-- What is written is a text of the value, by induction on the value. -/
theorem denotes_write (h : layout.IsPlain) (depth : Nat) (x : Json) :
    Denotes (write layout depth x) x.value := by
  -- On the value; the parts of an array and of an object are one level deeper.
  induction x using Json.induction generalizing depth with
  | number n =>
    rw [write, value]
    exact .number (numberText_toDigits n)
  | string s =>
    rw [write, value]
    exact .string (stringText_writeString s)
  | array xs ih =>
    cases xs with
    | nil =>
      rw [write, value]
      exact .emptyArray .nil
    | cons x xs =>
      obtain ⟨ps, hps, hvalues, htext⟩ := exists_areParts_items h (depth + 1)
        (List.cons_ne_nil x xs) (fun x hx => ih x hx _) (h.isSpace_lineBreak depth)
      have harray := Denotes.array hps.ne_nil hps.front hps.behind hps.denotes
      rwa [← hvalues, ← htext] at harray
  | object fs ih =>
    cases fs with
    | nil =>
      rw [write, value]
      exact .emptyObject .nil
    | cons f fs =>
      obtain ⟨ps, hps, hvalues, htext⟩ := exists_areParts_fields h (depth + 1)
        (List.cons_ne_nil f fs) (fun f hf => ih f hf _) (h.isSpace_lineBreak depth)
      have hobject := Denotes.object hps.ne_nil hps.front hps.behind hps.denotes
      rwa [← hvalues, ← htext] at hobject

/-- What is written is read back, in whichever layout. -/
theorem isText_write_iff (h : layout.IsPlain) {x : Json} {v : Value} :
    IsText (write layout 0 x) v ↔ v = x.value := by
  have hwritten : IsText (write layout 0 x) x.value :=
    ⟨[], _, [], .nil, .nil, denotes_write h 0 x, by rw [List.nil_append, List.append_nil]⟩
  constructor
  · exact fun hv => hv.unique hwritten
  · rintro rfl
    exact hwritten

theorem isText_compact_iff {x : Json} {v : Value} : IsText x.compact.toList v ↔ v = x.value := by
  rw [compact, String.toList_ofList, isText_write_iff compactLayout_isPlain]

theorem isText_pretty_iff {x : Json} {v : Value} : IsText x.pretty.toList v ↔ v = x.value := by
  rw [pretty, String.toList_ofList, isText_write_iff prettyLayout_isPlain]

end Lexis.Json

/-
  Lexis.Proofs.Settings.Layout

  A configuration file in the documented layout gives back the settings that it was written for.

  A file need not write every setting, and may hold entries that set nothing. Where no key stands
  twice in a table, what the table has for the key of a setting is what was written for it, whatever
  stands around it. A section without lines may be left out, and then it has nothing for any key
  either. So each setting is read as what was written, or it keeps its default.
-/

import Lexis.Settings
import Lexis.Proofs.Text.Utf8
import Lexis.Proofs.Toml.Layout
import Lexis.Proofs.Toml.Written
import Mathlib.Data.List.Nodup

namespace Lexis.Settings

open Lexis.Toml (Value Table AreLines CharText CharsText DocumentText Grouped DecimalText IsBareKey
  LeafText LinesText SectionsText sectionEntry)

/-! ## The layout -/

/-- The tables of a configuration file. -/
inductive Place where
  | root
  | output
  | check
  deriving DecidableEq

/-- The settings, by what they set. -/
inductive Field where
  | verbose
  | format
  | showSpans
  | maxErrors
  deriving DecidableEq

/-- The keys that mean something in a table. -/
def Place.names : Place → List String
  | root => ["verbose", "output", "check"]
  | output => ["format", "show_spans"]
  | check => ["max_errors"]

/-- All fields, in the order of the settings. -/
def Field.all : List Field :=
  [verbose, format, showSpans, maxErrors]

/-- Where a field stands. -/
def Field.place : Field → Place
  | verbose => .root
  | format => .output
  | showSpans => .output
  | maxErrors => .check

/-- The key that a field is set by. -/
def Field.key : Field → String
  | verbose => "verbose"
  | format => "format"
  | showSpans => "show_spans"
  | maxErrors => "max_errors"

/-- What is written for a field; no limit is not written at all. -/
def Field.value? (c : Settings) : Field → Option Value
  | verbose => some (.boolean c.verbose)
  | format => some (.string c.format)
  | showSpans => some (.boolean c.showSpans)
  | maxErrors => c.maxErrors.map fun n => .integer (.ofNat n)

/-- The entries of a table for the fields that are kept. -/
def written (c : Settings) (keep : Field → Bool) (place : Place) : List (String × Value) :=
  (Field.all.filter fun f => f.place = place && keep f).filterMap fun f =>
    (f.value? c).map (f.key, ·)

/-- Settings of which only some fields are kept; the others are at their defaults. -/
def restrict (c : Settings) (keep : Field → Bool) : Settings where
  verbose := if keep .verbose then c.verbose else false
  format := if keep .format then c.format else "text"
  showSpans := if keep .showSpans then c.showSpans else false
  maxErrors := if keep .maxErrors then c.maxErrors else none

/-- Entries for each table that set nothing there. -/
structure Extra (extra : Place → List (String × Value)) : Prop where
  /-- They can be written, with bare keys. -/
  areLines : ∀ place, AreLines (extra place)
  nodup : ∀ place, ((extra place).map (·.1)).Nodup
  unknown : ∀ place, ∀ e ∈ extra place, e.1 ∉ place.names

/-- The sections that the lines of each table make. -/
def sectionsOf (lines : Place → List (String × Value)) : List (String × List (String × Value)) :=
  [("output", lines .output), ("check", lines .check)]

/-- The root table with its lines and its sections. -/
def root (lines : Place → List (String × Value))
    (sections : List (String × List (String × Value))) : Table :=
  ⟨.header, lines .root ++ sections.map sectionEntry⟩

/-- The lines of each table and the sections that are written: the kept fields in their tables, with
    other entries among them. The lines of a table and the sections may stand in any order, and a
    section that has no lines may be left out. -/
structure LaidOut (c : Settings) (keep : Field → Bool) (extra lines : Place → List (String × Value))
    (sections : List (String × List (String × Value))) : Prop where
  perm : ∀ place, (lines place).Perm (written c keep place ++ extra place)
  nodup_sections : (sections.map (·.1)).Nodup
  mem_sectionsOf : ∀ s ∈ sections, s ∈ sectionsOf lines
  mem_of_ne_nil : ∀ s ∈ sectionsOf lines, s.2 ≠ [] → s ∈ sections

/-- The texts of configuration files that write the kept fields of settings. -/
def Document (c : Settings) (keep : Field → Bool) (extra : Place → List (String × Value))
    (text : List Char) : Prop :=
  ∃ lines sections, LaidOut c keep extra lines sections ∧ DocumentText text (lines .root) sections

/-! ## Keys and entries -/

variable {c : Settings} {keep : Field → Bool} {extra lines : Place → List (String × Value)}
  {sections : List (String × List (String × Value))} {place : Place} {f : Field} {key : String}
  {v : Value}

/-- A field is told by its key. -/
theorem Field.key_injective {f g : Field} (h : f.key = g.key) : f = g := by
  have hfind : ∀ f : Field,
      [verbose, format, showSpans, maxErrors].find? (fun g => g.key = f.key) = some f := by
    intro f
    cases f <;> decide +kernel
  have hf := hfind f
  rw [h, hfind g] at hf
  exact (Option.some.inj hf).symm

theorem Field.key_mem_names (f : Field) : f.key ∈ f.place.names := by
  cases f <;> simp [Field.key, Field.place, Place.names]

/-- The name of a section means something at the root, where it is no field. -/
theorem name_mem_names {s : String × List (String × Value)} (h : s ∈ sectionsOf lines) :
    s.1 ∈ Place.root.names := by
  have hname : s.1 ∈ ["output", "check"] := List.mem_map_of_mem h
  exact List.mem_cons_of_mem _ hname

theorem Field.key_ne_name (f : Field) {s : String × List (String × Value)}
    (h : s ∈ sectionsOf lines) : f.key ≠ s.1 := by
  have hname : s.1 ∈ ["output", "check"] := List.mem_map_of_mem h
  have hkey : f.key ∉ ["output", "check"] := by
    cases f <;> decide
  exact fun heq => hkey (heq ▸ hname)

theorem nodup_names (lines : Place → List (String × Value)) :
    ((sectionsOf lines).map (·.1)).Nodup := by
  have hnames : ["output", "check"].Nodup := by decide
  exact hnames

theorem exists_lines_of_mem {s : String × List (String × Value)} (h : s ∈ sectionsOf lines) :
    ∃ place, s.2 = lines place := by
  simp only [sectionsOf, List.mem_cons, List.not_mem_nil, or_false] at h
  rcases h with rfl | rfl
  · exact ⟨.output, rfl⟩
  · exact ⟨.check, rfl⟩

theorem isBareKey_of_mem_names (h : key ∈ place.names) : IsBareKey key := by
  have hall : ∀ key ∈ place.names, IsBareKey key := by
    cases place <;> decide +kernel
  exact hall key h

/-- The lines of a place are those of the settings that are kept there and have a value. -/
theorem mem_written :
    (key, v) ∈ written c keep place ↔
      ∃ f : Field, keep f = true ∧ f.place = place ∧ f.key = key ∧ f.value? c = some v := by
  have hall : ∀ f : Field, f ∈ Field.all := by
    intro f
    cases f <;> simp [Field.all]
  simp [written, hall, and_assoc, and_comm]

/-- Nothing but the field itself is written with its key. -/
theorem mem_written_key :
    (f.key, v) ∈ written c keep f.place ↔ keep f = true ∧ f.value? c = some v := by
  rw [mem_written]
  constructor
  · rintro ⟨g, hkeep, -, hkey, hv⟩
    rw [← Field.key_injective hkey]
    exact ⟨hkeep, hv⟩
  · rintro ⟨hkeep, hv⟩
    exact ⟨f, hkeep, rfl, rfl, hv⟩

/-- The field of a written entry. -/
theorem exists_key_of_mem_written {e : String × Value} (h : e ∈ written c keep place) :
    ∃ f : Field, f.place = place ∧ f.key = e.1 ∧ f.value? c = some e.2 := by
  obtain ⟨f, -, hplace, hkey, hv⟩ := mem_written.1 h
  exact ⟨f, hplace, hkey, hv⟩

theorem nodup_written (c : Settings) (keep : Field → Bool) (place : Place) :
    ((written c keep place).map (·.1)).Nodup := by
  have hkeys : (written c keep place).map (·.1) =
      (Field.all.filter fun f => f.place = place && keep f).filterMap fun f =>
        (f.value? c).map fun _ => f.key := by
    simp [written, List.map_filterMap, Option.map_map, Function.comp_def]
  rw [hkeys]
  refine List.Nodup.filterMap (fun f g key hf hg => ?_) (.filter _ (by decide))
  obtain ⟨_, -, rfl⟩ := Option.map_eq_some_iff.1 hf
  obtain ⟨_, -, hkey⟩ := Option.map_eq_some_iff.1 hg
  exact Field.key_injective hkey.symm

theorem isLeaf_of_value? (hmax : ∀ n, c.maxErrors = some n → n < 0x8000000000000000)
    (h : f.value? c = some v) : v.IsLeaf := by
  -- Only the limit can be too large for a value; the document's integers have 64 bits.
  cases f with
  | verbose =>
    cases h
    exact .boolean _
  | format =>
    cases h
    exact .string _
  | showSpans =>
    cases h
    exact .boolean _
  | maxErrors =>
    obtain ⟨n, hn, rfl⟩ := Option.map_eq_some_iff.1 h
    have hlt := hmax n hn
    have hrange : Toml.InInt64 n := ⟨by omega, by omega⟩
    exact .integer hrange

theorem areLines_written (hmax : ∀ n, c.maxErrors = some n → n < 0x8000000000000000) :
    AreLines (written c keep place) := by
  intro e he
  obtain ⟨f, -, hkey, hv⟩ := exists_key_of_mem_written he
  exact ⟨hkey ▸ isBareKey_of_mem_names f.key_mem_names, isLeaf_of_value? hmax hv⟩

/-! ## Values -/

theorem boolean?_ite (kept b : Bool) :
    boolean? (if kept then some (.boolean b) else none) = some (if kept then b else false) := by
  cases kept <;> rfl

theorem string?_ite (kept : Bool) (default s : String) :
    string? default (if kept then some (.string s) else none) =
      some (if kept then s else default) := by
  cases kept <;> rfl

theorem natural?_ite (kept : Bool) (n? : Option Nat) :
    natural? (if kept then n?.map fun n => .integer (.ofNat n) else none) =
      some (if kept then n? else none) := by
  cases kept <;> cases n? <;> rfl

/-! ## Tables -/

namespace LaidOut

/-- No key stands twice in a place, the further keys included. -/
theorem nodup_lines (h : LaidOut c keep extra lines sections) (hextra : Extra extra)
    (place : Place) : ((lines place).map (·.1)).Nodup := by
  rw [((h.perm place).map _).nodup_iff, List.map_append, List.nodup_append]
  refine ⟨nodup_written c keep place, hextra.nodup place, ?_⟩
  -- The key of a field means something in its table, which no key of another entry does.
  rintro key hwritten _ hmem rfl
  obtain ⟨e, he, hkey⟩ := List.mem_map.1 hmem
  obtain ⟨e', he', rfl⟩ := List.mem_map.1 hwritten
  obtain ⟨f, rfl, hf, -⟩ := exists_key_of_mem_written he'
  exact hextra.unknown _ e he (by rw [hkey, ← hf]; exact f.key_mem_names)

/-- A setting is in its place exactly if it is kept and has a value. -/
theorem mem_lines (h : LaidOut c keep extra lines sections) (hextra : Extra extra) :
    (f.key, v) ∈ lines f.place ↔ keep f = true ∧ f.value? c = some v := by
  rw [(h.perm f.place).mem_iff, List.mem_append, mem_written_key, or_iff_left]
  exact fun hmem => hextra.unknown _ _ hmem f.key_mem_names

/-- A table in which a field has the lines of its place has what was written for it. -/
theorem get?_key (h : LaidOut c keep extra lines sections) (hextra : Extra extra) {t : Table}
    (hnodup : (t.entries.map (·.1)).Nodup)
    (hmem : ∀ v, (f.key, v) ∈ t.entries ↔ (f.key, v) ∈ lines f.place) :
    t.get? f.key = if keep f then f.value? c else none := by
  refine Option.ext fun v => ?_
  rw [Table.get?_eq_some_iff hnodup, hmem, h.mem_lines hextra]
  cases keep f <;> simp

/-- No line of the root has the name of a section for its key. -/
theorem name_not_mem (h : LaidOut c keep extra lines sections) (hextra : Extra extra)
    {s : String × List (String × Value)} (hs : s ∈ sectionsOf lines) :
    s.1 ∉ (lines .root).map (·.1) := by
  intro hmem
  obtain ⟨e, he, hkey⟩ := List.mem_map.1 hmem
  rcases List.mem_append.1 ((h.perm .root).mem_iff.1 he) with he | he
  · obtain ⟨f, -, hf, -⟩ := exists_key_of_mem_written he
    exact f.key_ne_name hs (hf.trans hkey)
  · exact hextra.unknown _ e he (by rw [hkey]; exact name_mem_names hs)

/-- No key stands twice in the root table. -/
theorem nodup_root (h : LaidOut c keep extra lines sections) (hextra : Extra extra) :
    ((root lines sections).entries.map (·.1)).Nodup := by
  have hkeys : (root lines sections).entries.map (·.1) =
      (lines .root).map (·.1) ++ sections.map (·.1) := by
    rw [root, Table.entries, List.map_append, List.map_map]
    rfl
  rw [hkeys, List.nodup_append]
  refine ⟨h.nodup_lines hextra .root, h.nodup_sections, ?_⟩
  rintro key hkey _ hmem rfl
  obtain ⟨s, hs, rfl⟩ := List.mem_map.1 hmem
  exact h.name_not_mem hextra (h.mem_sectionsOf s hs) hkey

theorem nodup_section (h : LaidOut c keep extra lines sections) (hextra : Extra extra)
    {s : String × List (String × Value)} (hs : s ∈ sections) : (s.2.map (·.1)).Nodup := by
  obtain ⟨place, hplace⟩ := exists_lines_of_mem (h.mem_sectionsOf s hs)
  rw [hplace]
  exact h.nodup_lines hextra place

theorem get?_root (h : LaidOut c keep extra lines sections) (hextra : Extra extra) (f : Field)
    (hf : f.place = .root) :
    (root lines sections).get? f.key = if keep f then f.value? c else none := by
  refine h.get?_key hextra (h.nodup_root hextra) fun v => ?_
  rw [hf]
  refine List.mem_append.trans (or_iff_left fun hmem => ?_)
  -- An entry behind the lines has the name of a section for its key.
  obtain ⟨s, hs, heq⟩ := List.mem_map.1 hmem
  exact f.key_ne_name (h.mem_sectionsOf s hs) (congrArg Prod.fst heq).symm

theorem get?_lines (h : LaidOut c keep extra lines sections) (hextra : Extra extra) (f : Field) :
    Table.get? ⟨.header, lines f.place⟩ f.key = if keep f then f.value? c else none :=
  h.get?_key hextra (h.nodup_lines hextra f.place) fun _ => Iff.rfl

/-- A section holds its lines, and one that is left out has none. -/
theorem section?_eq (h : LaidOut c keep extra lines sections) (hextra : Extra extra)
    {name : String} {entries : List (String × Value)} (hs : (name, entries) ∈ sectionsOf lines)
    (names : List String) : section? names ((root lines sections).get? name) =
      some (Table.get? ⟨.header, entries⟩) := by
  by_cases hmem : (name, entries) ∈ sections
  · have hget : (root lines sections).get? name = some (.table ⟨.header, entries⟩) :=
      (Table.get?_eq_some_iff (h.nodup_root hextra)).2
        (List.mem_append_right _ (List.mem_map_of_mem (f := sectionEntry) hmem))
    rw [hget]
    rfl
  · -- No lines are left out with it, and nothing else has its name.
    have hempty : entries = [] := by
      by_contra hne
      exact hmem (h.mem_of_ne_nil _ hs hne)
    have hget : (root lines sections).get? name = none := by
      refine Table.get?_eq_none fun hkey => ?_
      obtain ⟨e, he, hname⟩ := List.mem_map.1 hkey
      rcases List.mem_append.1 he with he | he
      · exact h.name_not_mem hextra hs (hname ▸ List.mem_map_of_mem he)
      · obtain ⟨s, hsection, rfl⟩ := List.mem_map.1 he
        have heq : s = (name, entries) :=
          List.inj_on_of_nodup_map (nodup_names lines) (h.mem_sectionsOf s hsection) hs hname
        exact hmem (heq ▸ hsection)
    rw [hget, hempty]
    rfl

/-- Each field is read as what was kept of it. -/
theorem ofTable?_root (h : LaidOut c keep extra lines sections) (hextra : Extra extra) :
    ofTable? (root lines sections) = some (c.restrict keep) := by
  have hverbose : (root lines sections).get? "verbose" =
      if keep .verbose then some (.boolean c.verbose) else none :=
    h.get?_root hextra .verbose rfl
  have hformat : Table.get? ⟨.header, lines .output⟩ "format" =
      if keep .format then some (.string c.format) else none :=
    h.get?_lines hextra .format
  have hspans : Table.get? ⟨.header, lines .output⟩ "show_spans" =
      if keep .showSpans then some (.boolean c.showSpans) else none :=
    h.get?_lines hextra .showSpans
  have hmax : Table.get? ⟨.header, lines .check⟩ "max_errors" =
      if keep .maxErrors then c.maxErrors.map fun n => .integer (.ofNat n) else none :=
    h.get?_lines hextra .maxErrors
  have houtput := h.section?_eq hextra List.mem_cons_self ["format", "show_spans"]
  have hcheck := h.section?_eq hextra (List.mem_cons_of_mem _ List.mem_cons_self) ["max_errors"]
  -- With these, each reader sees its setting where it is kept, and nothing elsewhere.
  unfold ofTable?
  simp only [hverbose, houtput, hformat, hspans, hcheck, hmax, boolean?_ite, string?_ite,
    natural?_ite, Option.bind_eq_bind, Option.bind_some]
  rfl

end LaidOut

/-! ## Documents -/

/-- A document reads back as the settings, those left out at their defaults. -/
theorem parse_of_document {text : List Char} (hextra : Extra extra)
    (h : Document c keep extra text) : parse text = .ok (c.restrict keep) := by
  obtain ⟨lines, sections, hlaid, htext⟩ := h
  have hparse : Toml.parse? text = some (root lines sections) :=
    Toml.parse?_of_documentText htext (hlaid.nodup_root hextra)
      fun _ hs => hlaid.nodup_section hextra hs
  have htable := hlaid.ofTable?_root hextra
  unfold parse
  rw [hparse, Option.bind_some, htable]

/-- The plainest layout: what is written and then the rest, under both sections. -/
theorem laidOut_append (c : Settings) (keep : Field → Bool)
    (extra : Place → List (String × Value)) :
    LaidOut c keep extra (fun place => written c keep place ++ extra place)
      (sectionsOf fun place => written c keep place ++ extra place) where
  perm _ := .refl _
  nodup_sections := nodup_names _
  mem_sectionsOf _ hs := hs
  mem_of_ne_nil _ hs _ := hs

/-- Settings whose limit fits into an integer can be written. -/
theorem exists_document (hmax : ∀ n, c.maxErrors = some n → n < 0x8000000000000000)
    (hextra : Extra extra) : ∃ text, Document c keep extra text := by
  -- The settings that are kept go first in each place, then the further keys.
  have hlines : ∀ place, AreLines (written c keep place ++ extra place) := by
    intro place e he
    rcases List.mem_append.1 he with he | he
    · exact areLines_written hmax e he
    · exact hextra.areLines place e he
  have hsections : ∀ s ∈ sectionsOf fun place => written c keep place ++ extra place,
      IsBareKey s.1 ∧ AreLines s.2 := by
    intro s hs
    obtain ⟨place, hplace⟩ := exists_lines_of_mem hs
    rw [hplace]
    exact ⟨isBareKey_of_mem_names (name_mem_names hs), hlines place⟩
  obtain ⟨text, htext⟩ := Toml.exists_documentText (hlines .root) hsections
  exact ⟨text, _, _, laidOut_append c keep extra, htext⟩

/-- Settings whose limit fits in 64 bits with a sign can be written, whichever of their fields are
    left out and whatever else is among them, and a file that is written so is loaded as these
    settings, with what was left out at its default. -/
theorem load_document (hmax : ∀ n, c.maxErrors = some n → n < 0x8000000000000000)
    (hextra : Extra extra) :
    (∃ text, Document c keep extra text) ∧
      ∀ text, Document c keep extra text → ∀ files path,
        files path = .file (Utf8.encode text) → load files path = .ok (c.restrict keep) := by
  refine ⟨exists_document hmax hextra, fun text h files path hfile => ?_⟩
  have hread : Files.readConfiguration files path = .ok text := by
    unfold Files.readConfiguration
    rw [hfile]
    simp only [Utf8.decode_encode]
  unfold load
  rw [hread]
  exact parse_of_document hextra h

/-- A format of characters that must be escaped, the largest limit, no word on spans, and keys of
    other tables among the lines. -/
theorem load_document_escaped :
    load (fun _ => .file (Utf8.encode ("format = 0xBE_EF\nverbose = true\n\n[check]\n" ++
        "max_errors = 9223372036854775807\n[output]\nmax_errors = false\n" ++
        "format = \"\\\"\\\\\\n\\u0001é\"\n").toList)) "quillt.toml" =
      .ok ⟨true, "\"\\\n\x01é", false, some 9223372036854775807⟩ := by
  obtain ⟨extra, hextra, hlaid⟩ : ∃ extra, Extra extra ∧
      LaidOut ⟨true, "\"\\\n\x01é", true, some 9223372036854775807⟩ (· ≠ .showSpans) extra
        (fun
          | .root => [("format", .integer 0xBEEF), ("verbose", .boolean true)]
          | .output => [("max_errors", .boolean false), ("format", .string "\"\\\n\x01é")]
          | .check => [("max_errors", .integer 9223372036854775807)])
        [("check", [("max_errors", .integer 9223372036854775807)]),
          ("output", [("max_errors", .boolean false), ("format", .string "\"\\\n\x01é")])] := by
    refine ⟨fun
      | .root => [("format", .integer 0xBEEF)]
      | .output => [("max_errors", .boolean false)]
      | .check => [], ⟨fun place => ?_, fun place => ?_, fun place => ?_⟩,
      ⟨fun place => ?_, by simp, by simp [sectionsOf], by simp [sectionsOf]⟩⟩
    · cases place with
      | root => exact List.forall_mem_singleton.2 ⟨by decide +kernel, .integer (by decide)⟩
      | output => exact List.forall_mem_singleton.2 ⟨by decide +kernel, .boolean false⟩
      | check => exact List.forall_mem_nil _
    · cases place <;> simp
    · cases place <;> simp [Place.names]
    · cases place with
      | root => exact .swap _ _ _
      | output => exact .swap _ _ _
      | check => exact .refl _
  -- The same document by the grammar: another base, the largest limit, and each kind of escape.
  have hbased : LeafText ['0', 'x', 'B', 'E', '_', 'E', 'F'] (.integer 0xBEEF) :=
    .integer (.based List.mem_cons_self (.next rfl (.group rfl (.next rfl (.one rfl)))))
      (by decide)
  have hlargest : LeafText (Nat.toDigits 10 9223372036854775807) (.integer 9223372036854775807) :=
    .integer (.plain (Toml.decimalText_toDigits _)) (by decide)
  have hchars : CharsText ['\\', '"', '\\', '\\', '\\', 'n', '\\', 'u', '0', '0', '0', '1', 'é']
      ['"', '\\', '\n', '\x01', 'é'] :=
    .cons (.letter (s := '"') (by decide)) (.cons (.letter (s := '\\') (by decide))
      (.cons (.letter (s := 'n') (by decide))
        (.cons (@CharText.short ['0', '0', '0', '1'] _ ⟨rfl, by simp [Text.hexValue?], rfl⟩)
          (.cons (.plain (by decide)) .nil))))
  have hroot : LinesText _ [("format", .integer 0xBEEF), ("verbose", .boolean true)] :=
    .cons (by decide +kernel) hbased (.cons (by decide +kernel) (.boolean true) .nil)
  have hcheck : LinesText _ [("max_errors", .integer 9223372036854775807)] :=
    .cons (by decide +kernel) hlargest .nil
  have houtput : LinesText _ [("max_errors", .boolean false),
      ("format", .string "\"\\\n\x01é")] :=
    .cons (by decide +kernel) (.boolean false) (.cons (by decide +kernel) (.string hchars) .nil)
  have hsections : SectionsText _ [("check", _), ("output", _)] :=
    @SectionsText.cons _ 1 _ _ _ _ (by decide +kernel) hcheck
      (@SectionsText.cons _ 0 _ _ _ _ (by decide +kernel) houtput .nil)
  exact (load_document (by decide) hextra).2 _
    ⟨_, _, hlaid, _, _, hroot, hsections, by decide +kernel⟩ _ _ rfl

end Lexis.Settings

/-
  Lexis.Proofs.Dump.Json

  A JSON dump can be read back.

  A dump is one JSON text, and whatever reads JSON texts reads it as the list of its files with the
  records of all their tokens.
-/

import Lexis.Proofs.Json.Writer
import Lexis.Proofs.Run.Dump

namespace Lexis

namespace Dump

/-- The record of a token. -/
def tokenValue (t : Token) : Json.Value :=
  .object [("kind", .string t.kind.name), ("lexeme", .string t.lexeme), ("line", .number t.line),
    ("start", .number t.span.start), ("end", .number t.span.stop)]

/-- The record of a file. -/
def fileValue (f : File) : Json.Value :=
  .object [("file", .string f.path), ("tokens", .array (f.tokens.map tokenValue))]

theorem value_tokenRecord (t : Token) : (tokenRecord t).value = tokenValue t := rfl

theorem value_fileRecord (f : File) : (fileRecord f).value = fileValue f := by
  have hrecords : (f.tokens.map tokenRecord).map Json.value = f.tokens.map tokenValue := by
    rw [List.map_map]
    rfl
  simp only [fileRecord, fileValue, Json.value, Json.fieldValues, Json.itemValues_eq_map, hrecords]

/-- The text of a dump has one value, the list of the records of its files. -/
theorem isText_json_iff {files : List File} {v : Json.Value} :
    Json.IsText (json files).toList v ↔ v = .array (files.map fileValue) := by
  have hfiles : (files.map fileRecord).map Json.value = files.map fileValue := by
    rw [List.map_map]
    exact List.map_congr_left fun f _ => value_fileRecord f
  rw [json, Json.isText_pretty_iff, Json.value, Json.itemValues_eq_map, hfiles]

end Dump

namespace Run

/-- A JSON dump is one JSON text. It stands for the list of the sources in their order, each with
    its path and the records of all its tokens, the end token last. So does the record of a token
    by itself stand for what it records, whatever the token. The reader that reads them back reads
    all JSON texts and nothing else. -/
theorem isText_render_json :
    (∀ (spans : Bool) (sources : List (String × String)) (out : String),
      (render .json spans sources).result = .ok out →
      ∃ files : List Dump.File,
        List.Forall₂ (fun s f => f.path = s.1 ∧ tokenize s.2 = .ok f.tokens) sources files ∧
        (∀ f ∈ files, ∃ us t, f.tokens = us ++ [t] ∧ t.kind = .eof) ∧
        (∀ v, Json.IsText out.toList v ↔ v = .array (files.map Dump.fileValue)) ∧
        Json.read? out.toList = some (.array (files.map Dump.fileValue))) ∧
    (∀ (spans : Bool) (sources : List (String × String)), (∀ s ∈ sources, Scannable s.2) →
      ∃ out, (render .json spans sources).result = .ok out) ∧
    (∀ t : Token, (∀ v, Json.IsText (Dump.tokenRecord t).compact.toList v ↔ v = Dump.tokenValue t) ∧
      Json.read? (Dump.tokenRecord t).compact.toList = some (Dump.tokenValue t)) ∧
    ∀ cs v, Json.read? cs = some v ↔ Json.IsText cs v := by
  refine ⟨?_, ?_, ?_, fun cs v => Json.read?_eq_some_iff⟩
  · intro spans sources out hout
    obtain ⟨files, hfiles, rfl⟩ := result_render_eq_ok_iff.1 hout
    refine ⟨files, scanned_eq_ok_iff.1 hfiles, exists_tokens_eq hfiles, ?_, ?_⟩
    · exact fun v => Dump.isText_json_iff
    · exact Json.read?_eq_some_iff.2 (Dump.isText_json_iff.2 rfl)
  · intro spans sources h
    obtain ⟨files, hfiles⟩ := exists_scanned h
    exact ⟨_, result_render_eq_ok_iff.2 ⟨files, hfiles, rfl⟩⟩
  · intro t
    have hiff : ∀ v, Json.IsText (Dump.tokenRecord t).compact.toList v ↔ v = Dump.tokenValue t := by
      intro v
      rw [Json.isText_compact_iff, Dump.value_tokenRecord]
    exact ⟨hiff, Json.read?_eq_some_iff.2 ((hiff _).2 rfl)⟩

/-- A path with a quote, and a string with a line feed, a control character and a backslash. -/
def escaping : List (String × String) :=
  [("a\"b", "\"\n\x01é\\\"")]

/-- The dump of it. -/
def escapingDump : String :=
  "[\n" ++
  "  \x7b\n" ++
  "    \"file\": \"a\\\"b\",\n" ++
  "    \"tokens\": [\n" ++
  "      \x7b\n" ++
  "        \"kind\": \"STRING\",\n" ++
  "        \"lexeme\": \"\\\"\\n\\u0001é\\\\\\\"\",\n" ++
  "        \"line\": 1,\n" ++
  "        \"start\": 0,\n" ++
  "        \"end\": 7\n" ++
  "      \x7d,\n" ++
  "      \x7b\n" ++
  "        \"kind\": \"EOF\",\n" ++
  "        \"lexeme\": \"\",\n" ++
  "        \"line\": 2,\n" ++
  "        \"start\": 7,\n" ++
  "        \"end\": 7\n" ++
  "      \x7d\n" ++
  "    ]\n" ++
  "  \x7d\n" ++
  "]"

/-- What a dump with escapes is read as. -/
theorem isText_render_json_escaping :
    (render .json false escaping).result = .ok escapingDump ∧
      Json.read? escapingDump.toList = some (.array [.object [("file", .string "a\"b"),
        ("tokens", .array
          [Dump.tokenValue ⟨.string, "\"\n\x01é\\\"", 1, ⟨0, 7⟩⟩,
            Dump.tokenValue ⟨.eof, "", 2, ⟨7, 7⟩⟩])]]) ∧
      (∀ s ∈ escaping, Scannable s.2) ∧ ∃ out, (render .json true escaping).result = .ok out := by
  have hout : (render .json false escaping).result = .ok escapingDump := by decide +kernel
  have htokens : tokenize "\"\n\x01é\\\"" =
      .ok [⟨.string, "\"\n\x01é\\\"", 1, ⟨0, 7⟩⟩, ⟨.eof, "", 2, ⟨7, 7⟩⟩] := by decide +kernel
  have hscan : ∀ s ∈ escaping, Scannable s.2 := by
    intro s hs
    rw [escaping, List.mem_singleton] at hs
    subst hs
    exact ⟨by decide, by decide⟩
  obtain ⟨hread, hexists, -⟩ := isText_render_json
  obtain ⟨files, hfiles, -, -, hvalue⟩ := hread false escaping escapingDump hout
  obtain ⟨f, rest, hf, hrest, rfl⟩ := List.forall₂_cons_left_iff.1 hfiles
  -- The dump has the one file of the sources.
  rw [List.forall₂_nil_left_iff.1 hrest] at hvalue
  refine ⟨hout, ?_, hscan, hexists true escaping hscan⟩
  rw [hvalue, List.map_singleton, Dump.fileValue, hf.1, Except.ok.inj (hf.2.symm.trans htokens)]
  rfl

end Run

end Lexis

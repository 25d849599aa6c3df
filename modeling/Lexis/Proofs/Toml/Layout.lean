/-
  Lexis.Proofs.Toml.Layout

  A plainly laid out document is read as the tables that it shows.

  Each line is one statement, read up to its line end, so the statements of a text are those of its
  lines in order. Where no key stands twice, each statement puts its entry behind those that are
  there, and in the end the root table holds its own lines and then one table for each section.
-/

import Lexis.Proofs.Toml.Leaves

namespace Lexis.Toml

variable {key name : String} {v : Value} {cs ls ss : List Char} {entries : List (String × Value)}
  {sections : List (String × List (String × Value))}

/-! ## Keys -/

theorem isBareKey_of_isAlphanum {c : Char} (h : c.isAlphanum = true) : isBareKey c = true := by
  have hcases : (c.isUpper = true ∨ c.isLower = true) ∨ c.isDigit = true := by
    rw [← Bool.or_eq_true, ← Bool.or_eq_true]
    exact h
  simp only [isBareKey, Text.isWordPart, Text.isWordStart, Char.le_def, Bool.or_eq_true,
    Bool.and_eq_true, decide_eq_true_eq]
  rcases hcases with (hupper | hlower) | hdigit
  · exact .inl (.inl (.inl (.inr (of_decide_eq_true hupper))))
  · have hrange := Bool.and_eq_true_iff.1 hlower
    exact .inl (.inl (.inl (.inl ⟨of_decide_eq_true hrange.1, of_decide_eq_true hrange.2⟩)))
  · exact .inl (.inr ((Text.isDigit_eq c).trans hdigit))

theorem IsBareKey.isBareKey (h : IsBareKey key) : ∀ c ∈ key.toList, isBareKey c = true := by
  intro c hc
  rcases h.2 c hc with hword | rfl | rfl
  · exact isBareKey_of_isAlphanum hword
  · rfl
  · rfl

theorem IsBareKey.exists_cons (h : IsBareKey key) :
    ∃ c cs, key.toList = c :: cs ∧ Toml.isBareKey c = true := by
  cases hkey : key.toList with
  | nil => exact absurd (String.toList_eq_nil_iff.1 hkey) h.1
  | cons c cs => exact ⟨c, cs, rfl, h.isBareKey c (by rw [hkey]; exact List.mem_cons_self)⟩

/-- A bare key is read up to where it stops. -/
theorem readKey?_of_isBareKey (h : IsBareKey key) {c : Char} (hc : isBareKey c = false)
    (rest : List Char) : readKey? (key.toList ++ c :: rest) = some (key, c :: rest) := by
  have htake : (key.toList ++ c :: rest).takeWhile isBareKey = key.toList := by
    rw [List.takeWhile_append_of_pos h.isBareKey, List.takeWhile_cons_of_neg (by simp [hc]),
      List.append_nil]
  have hdrop : (key.toList ++ c :: rest).dropWhile isBareKey = c :: rest := by
    rw [List.dropWhile_append_of_pos h.isBareKey, List.dropWhile_cons_of_neg (by simp [hc])]
  obtain ⟨d, ds, hkey, hd⟩ := h.exists_cons
  unfold readKey?
  -- A bare key begins with no quote, so neither kind of quoted key is tried.
  split
  next heq =>
    rw [hkey] at heq
    cases heq
    cases hd
  next heq =>
    rw [hkey] at heq
    cases heq
    cases hd
  next =>
    simp only [htake, hdrop, String.ofList_toList]
    rw [hkey]
    rfl

theorem skipSpace_cons {c : Char} (hc : isSpace c = false) (cs : List Char) :
    skipSpace (c :: cs) = c :: cs :=
  List.dropWhile_cons_of_neg (by simp [hc])

/-- A character of a bare key starts nothing else. -/
theorem ne_of_isBareKey {c d : Char} (hc : isBareKey c = true) (hd : isBareKey d = false) :
    c ≠ d := by
  rintro rfl
  rw [hd] at hc
  cases hc

theorem isSpace_of_isBareKey {c : Char} (hc : isBareKey c = true) : isSpace c = false := by
  simp [isSpace, ne_of_isBareKey hc (d := ' ') rfl, ne_of_isBareKey hc (d := '\t') rfl]

/-- A bare key is a path of its own, if no point follows. -/
theorem readPath?_of_isBareKey (h : IsBareKey key) {c d : Char} {r rest : List Char}
    (hd : isBareKey d = false) (hskip : skipSpace (d :: r) = c :: rest) (hc : c ≠ '.') :
    readPath? (key.toList ++ d :: r) = some ([], key, c :: rest) := by
  have hread : readKey? (skipSpace (key.toList ++ d :: r)) = some (key, d :: r) := by
    obtain ⟨e, cs, hkey, he⟩ := h.exists_cons
    have hstart : skipSpace (key.toList ++ d :: r) = key.toList ++ d :: r := by
      rw [hkey]
      exact skipSpace_cons (isSpace_of_isBareKey he) _
    rw [hstart, readKey?_of_isBareKey h hd]
  have hkeys : readKeys? (key.toList ++ d :: r) = some ([key], c :: rest) := by
    rw [readKeys?, hread]
    simp only [Option.bind_eq_bind, Option.bind_some, hskip]
    -- No point follows, so the row of keys ends here.
    split
    next heq =>
      cases heq
      exact absurd rfl hc
    next => rfl
  unfold readPath?
  rw [hkeys]
  rfl

/-! ## Statements -/

theorem readPair?_of_line (hkey : IsBareKey key) (hv : LeafText cs v) (depth : Nat)
    (rest : List Char) :
    readPair? (readValue? (depth + 1))
        (key.toList ++ ' ' :: '=' :: ' ' :: (cs ++ '\n' :: rest)) =
      some (([], key, v), '\n' :: rest) := by
  have hvalue : skipSpace (' ' :: (cs ++ '\n' :: rest)) = cs ++ '\n' :: rest := by
    obtain ⟨c, cs', rfl, hc, -⟩ := hv.exists_cons
    exact skipSpace_cons hc _
  have hpath : readPath? (key.toList ++ ' ' :: '=' :: ' ' :: (cs ++ '\n' :: rest)) =
      some ([], key, '=' :: ' ' :: (cs ++ '\n' :: rest)) :=
    readPath?_of_isBareKey hkey rfl rfl (by decide)
  unfold readPair?
  rw [hpath]
  show (readValue? (depth + 1) (skipSpace (' ' :: (cs ++ '\n' :: rest)))).bind _ = _
  rw [hvalue, readValue?_of_leafText hv]
  rfl

/-- A line reads as the statement that sets its key. -/
theorem readStatement?_of_line (hkey : IsBareKey key) (hv : LeafText cs v) (rest : List Char) :
    readStatement? (key.toList ++ ' ' :: '=' :: ' ' :: (cs ++ '\n' :: rest)) =
      some (.pair [] key v, '\n' :: rest) := by
  have hpair := readPair?_of_line hkey hv 79 rest
  obtain ⟨c, cs', hcons, hc⟩ := hkey.exists_cons
  -- No key starts with a bracket, so this is not a header of either form.
  have hne := ne_of_isBareKey hc (d := '[') rfl
  rw [hcons] at hpair ⊢
  rw [readStatement?.eq_def]
  split
  next heq => exact absurd (List.cons.inj heq).1 hne
  next heq => exact absurd (List.cons.inj heq).1 hne
  next =>
    show (readPair? (readValue? 80) _).bind _ = _
    rw [hpair]
    rfl

theorem readStatement?_of_header (hname : IsBareKey name) (rest : List Char) :
    readStatement? ('[' :: (name.toList ++ ']' :: rest)) = some (.header [] name, rest) := by
  have hpath := readPath?_of_isBareKey hname (c := ']') (d := ']') (r := rest) rfl rfl (by decide)
  obtain ⟨c, cs', hcons, hc⟩ := hname.exists_cons
  -- No bracket begins a bare key: the header is that of a table, not of an array.
  have hne := ne_of_isBareKey hc (d := '[') rfl
  rw [hcons] at hpath ⊢
  rw [readStatement?.eq_def]
  split
  next heq =>
    cases heq
    exact absurd rfl hne
  next heq =>
    cases heq
    show (readPath? _).bind _ = _
    rw [hpath]
    rfl
  next hnot => exact absurd rfl (hnot _)

/-- A statement is read with its line end, and the reading goes on behind it. -/
theorem readStatements?_of_statement {c : Char} {cs rest : List Char} {statement : Statement}
    (hc : isSpace c = false) (hne : c ∉ ['#', '\n', '\r'])
    (h : readStatement? (c :: cs) = some (statement, '\n' :: rest))
    (hlt : rest.length < (c :: cs).length) :
    readStatements? (c :: cs) = (readStatements? rest).map (statement :: ·) := by
  have hend : readLineEnd? ('\n' :: rest) = some rest := rfl
  simp only [List.mem_cons, List.not_mem_nil, or_false] at hne
  rw [readStatements?, skipSpace_cons hc]
  simp only [if_neg hne, h]
  show (if rest.length < (c :: cs).length then
    (readStatements? rest).bind fun statements => some (statement :: statements) else none) = _
  rw [if_pos hlt]
  cases readStatements? rest <;> rfl

/-- An empty line says nothing. -/
theorem readStatements?_newline (rest : List Char) :
    readStatements? ('\n' :: rest) = readStatements? rest := by
  rw [readStatements?, skipSpace_cons rfl]
  show (if rest.length < ('\n' :: rest).length then readStatements? rest else none) = _
  rw [if_pos (by simp)]

/-- The statement of a line. -/
def lineStatement (e : String × Value) : Statement :=
  .pair [] e.1 e.2

/-- Lines read as their statements, by induction on them. -/
theorem readStatements?_of_linesText (h : LinesText ls entries) (rest : List Char) :
    readStatements? (ls ++ rest) = (readStatements? rest).map (entries.map lineStatement ++ ·) := by
  induction h with
  | nil => simp
  | @cons key v cs ls entries hkey hv _ ih =>
    have hread := readStatement?_of_line hkey hv (ls ++ rest)
    obtain ⟨c, cs', hcons, hc⟩ := hkey.exists_cons
    -- A line with a key is neither a comment nor empty.
    have hne : c ∉ ['#', '\n', '\r'] := by
      simp [ne_of_isBareKey hc (d := '#') rfl, ne_of_isBareKey hc (d := '\n') rfl,
        ne_of_isBareKey hc (d := '\r') rfl]
    have htext : key.toList ++ ' ' :: '=' :: ' ' :: (cs ++ '\n' :: ls) ++ rest =
        key.toList ++ ' ' :: '=' :: ' ' :: (cs ++ '\n' :: (ls ++ rest)) := by simp
    rw [htext]
    rw [hcons] at hread ⊢
    rw [List.cons_append] at hread ⊢
    rw [readStatements?_of_statement (isSpace_of_isBareKey hc) hne hread (by simp; omega), ih,
      Option.map_map]
    rfl

theorem readStatements?_replicate (empty : Nat) (rest : List Char) :
    readStatements? (List.replicate empty '\n' ++ rest) = readStatements? rest := by
  induction empty with
  | zero => rfl
  | succ empty ih => rw [List.replicate_succ, List.cons_append, readStatements?_newline, ih]

/-- The statements of a section: its header and its lines. -/
def sectionStatements (s : String × List (String × Value)) : List Statement :=
  .header [] s.1 :: s.2.map lineStatement

/-- Sections read as a header and its lines, each. -/
theorem readStatements?_of_sectionsText (h : SectionsText ss sections) :
    readStatements? ss = some (sections.flatMap sectionStatements) := by
  induction h with
  | nil =>
    rw [readStatements?]
    rfl
  | @cons name empty ls ss entries sections hname hls _ ih =>
    have hread := readStatement?_of_header hname ('\n' :: (ls ++ ss))
    rw [readStatements?_replicate, readStatements?_of_statement rfl (by decide) hread
      (by simp; omega), readStatements?_of_linesText hls, ih]
    rfl

/-! ## Tables -/

namespace Table

theorem get?_eq_none {t : Table} (h : key ∉ t.entries.map (·.1)) : t.get? key = none := by
  rw [get?, List.lookup_eq_none_iff]
  intro e he
  rw [bne_iff_ne]
  rintro rfl
  exact h (List.mem_map_of_mem he)

/-- Where no key stands twice, a table has for a key what is among its entries. -/
theorem get?_eq_some_iff {t : Table} (h : (t.entries.map (·.1)).Nodup) :
    t.get? key = some v ↔ (key, v) ∈ t.entries := by
  rw [get?, List.lookup_eq_some_iff]
  constructor
  · rintro ⟨front, back, heq, -⟩
    rw [heq]
    simp
  · intro hmem
    obtain ⟨front, back, heq⟩ := List.append_of_mem hmem
    refine ⟨front, back, heq, fun e he => ?_⟩
    rw [heq, List.map_append, List.map_cons, List.nodup_append] at h
    rw [bne_iff_ne]
    -- Another pair with the key would be a double key.
    exact fun hkey => h.2.2 _ (List.mem_map_of_mem he) _ List.mem_cons_self hkey.symm

theorem filter_of_not_mem {front : List (String × Value)} (h : key ∉ front.map (·.1)) :
    front.filter (·.1 ≠ key) = front := by
  rw [List.filter_eq_self]
  intro e he
  rw [decide_eq_true_eq]
  rintro rfl
  exact h (List.mem_map_of_mem he)

/-- A key that the table does not have comes in behind the others. -/
theorem set_of_not_mem {t : Table} (h : key ∉ t.entries.map (·.1)) (v : Value) :
    t.set key v = ⟨t.origin, t.entries ++ [(key, v)]⟩ := by
  rw [set, filter_of_not_mem h]

/-- A new key is put behind the others. -/
theorem define_of_not_mem {t : Table} (h : key ∉ t.entries.map (·.1)) (v : Value) :
    define [] key v t = some ⟨t.origin, t.entries ++ [(key, v)]⟩ := by
  show (if (false || (t.get? key).isSome) then none else some (t.set key v)) = _
  rw [get?_eq_none h, set_of_not_mem h]
  rfl

theorem openTable_of_not_mem {t : Table} (h : key ∉ t.entries.map (·.1)) :
    openTable [] key t = some ⟨t.origin, t.entries ++ [(key, .table (empty .header))]⟩ := by
  rw [openTable, modifyAt, get?_eq_none h, set_of_not_mem h]

/-- The table that came in last is changed where it stands. -/
theorem modifyAt_last {origin : Origin} {front : List (String × Value)} {last : Table}
    (h : name ∉ front.map (·.1)) (hlast : last.origin = .header)
    (change : Table → Option Table) :
    modifyAt false change [name] ⟨origin, front ++ [(name, .table last)]⟩ =
      (change last).map fun t => ⟨origin, front ++ [(name, .table t)]⟩ := by
  -- The table that is open stands last, and no other has its name.
  have hget : get? ⟨origin, front ++ [(name, .table last)]⟩ name = some (.table last) := by
    have hnone : front.lookup name = none := @get?_eq_none name ⟨origin, front⟩ h
    show (front ++ [(name, Value.table last)]).lookup name = _
    rw [List.lookup_append, hnone]
    simp
  have hset : ∀ t, set ⟨origin, front ++ [(name, .table last)]⟩ name (.table t) =
      ⟨origin, front ++ [(name, .table t)]⟩ := by
    intro t
    have hfilter : (front ++ [(name, Value.table last)]).filter (·.1 ≠ name) = front := by
      rw [List.filter_append, filter_of_not_mem h]
      simp
    show Table.mk origin ((front ++ [(name, Value.table last)]).filter (·.1 ≠ name) ++ _) = _
    rw [hfilter]
  unfold modifyAt
  rw [hget]
  simp only [hlast]
  show Option.map _ (change last) = _
  simp only [hset]

end Table

/-! ## Building -/

/-- Lines put their entries into the table that is open, behind those that are there. What stands
    around that table is `context`. -/
theorem build?_lines {header : List String} {context : Table → Table}
    (hcontext : ∀ t : Table, t.origin = .header → ∀ change,
      Table.modifyAt false change header (context t) = (change t).map context)
    {front : List (String × Value)} (h : ((front ++ entries).map (·.1)).Nodup)
    (rest : List Statement) :
    build? header (entries.map lineStatement ++ rest) (context ⟨.header, front⟩) =
      build? header rest (context ⟨.header, front ++ entries⟩) := by
  -- Along the lines, with the entries before them left free.
  induction entries generalizing front with
  | nil => simp
  | cons e entries ih =>
    have hmem : e.1 ∉ front.map (·.1) := by
      simp only [List.map_append, List.map_cons, List.nodup_append] at h
      exact fun hmem => h.2.2 _ hmem _ List.mem_cons_self rfl
    have hdefine := @Table.define_of_not_mem e.1 ⟨.header, front⟩ hmem e.2
    rw [List.append_cons] at h ⊢
    rw [← ih h]
    show ((context ⟨.header, front⟩).modifyAt false (·.define [] e.1 e.2) header).bind _ = _
    rw [hcontext _ rfl, hdefine]
    rfl

/-- The entry of a section in the root table. -/
def sectionEntry (s : String × List (String × Value)) : String × Value :=
  (s.1, .table ⟨.header, s.2⟩)

/-- Sections come in behind what is there, each as one table. -/
theorem build?_sections {header : List String} {front : List (String × Value)}
    (hnames : ((front ++ sections.map sectionEntry).map (·.1)).Nodup)
    (hkeys : ∀ s ∈ sections, (s.2.map (·.1)).Nodup) :
    build? header (sections.flatMap sectionStatements) ⟨.header, front⟩ =
      some ⟨.header, front ++ sections.map sectionEntry⟩ := by
  induction sections generalizing front header with
  | nil => simp [build?]
  | cons s sections ih =>
    obtain ⟨name, entries⟩ := s
    obtain ⟨hs, hsections⟩ := List.forall_mem_cons.1 hkeys
    -- The table is new, as the names of the sections are different.
    have hmem : name ∉ front.map (·.1) := by
      simp only [List.map_append, List.map_cons, List.nodup_append] at hnames
      exact fun hmem => hnames.2.2 _ hmem _ List.mem_cons_self rfl
    have hopen := @Table.openTable_of_not_mem name ⟨.header, front⟩ hmem
    have hlines := @build?_lines entries [name]
      (fun t => ⟨.header, front ++ [(name, .table t)]⟩)
      (fun t ht change => Table.modifyAt_last hmem ht change) [] hs
      (sections.flatMap sectionStatements)
    -- The section is put behind the front, and the rest is built behind it.
    rw [List.map_cons, List.append_cons] at hnames ⊢
    rw [← ih hnames hsections]
    show ((Table.mk .header front).openTable [] name).bind _ = _
    rw [hopen]
    exact hlines

/-! ## Documents -/

/-- No document starts with a byte order mark. -/
theorem DocumentText.dropByteOrderMark {text : List Char}
    (h : DocumentText text entries sections) : Utf8.dropByteOrderMark text = text := by
  obtain ⟨ls, ss, hls, hss, rfl⟩ := h
  have hfirst : ∀ c cs, ls ++ ss = c :: cs → c ≠ Utf8.byteOrderMark := by
    -- It starts with a key, or else with an empty line or a bracket.
    intro c cs heq
    cases hls with
    | cons hkey =>
      obtain ⟨d, ds, hcons, hd⟩ := hkey.exists_cons
      rw [hcons] at heq
      cases heq
      exact ne_of_isBareKey hd rfl
    | nil =>
      cases hss with
      | nil => cases heq
      | @cons name empty =>
        cases empty with
        | zero =>
          cases heq
          decide
        | succ empty =>
          cases heq
          decide
  cases htext : ls ++ ss with
  | nil => rfl
  | cons c cs => exact if_neg (hfirst c cs htext)

/-- A document is its own lines and then its sections, if no key stands twice in one table. -/
theorem parse?_of_documentText {text : List Char} (h : DocumentText text entries sections)
    (hnames : ((entries ++ sections.map sectionEntry).map (·.1)).Nodup)
    (hkeys : ∀ s ∈ sections, (s.2.map (·.1)).Nodup) :
    parse? text = some ⟨.header, entries ++ sections.map sectionEntry⟩ := by
  have hmark := h.dropByteOrderMark
  obtain ⟨ls, ss, hls, hss, rfl⟩ := h
  have hroot : ((([] : List (String × Value)) ++ entries).map (·.1)).Nodup := by
    rw [List.map_append] at hnames
    exact (List.nodup_append.1 hnames).1
  -- The lines in front of the first header go to the table of the document itself.
  have hlines := @build?_lines entries [] id
    (fun t _ change => show change t = _ from (Option.map_id_apply).symm) [] hroot
    (sections.flatMap sectionStatements)
  unfold parse?
  rw [hmark, readStatements?_of_linesText hls, readStatements?_of_sectionsText hss]
  exact hlines.trans (build?_sections hnames hkeys)

end Lexis.Toml

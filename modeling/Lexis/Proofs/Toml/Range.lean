/-
  Lexis.Proofs.Toml.Range

  Every integer of a document fits in 64 bits with a sign.

  Integers are checked where they are read. From there a value goes into arrays and tables, and
  statements move tables around; none of this makes an integer, so whatever is found in the root
  table keeps to the range.
-/

import Lexis.Toml.Document
import Mathlib.Data.List.Basic

namespace Lexis.Toml

mutual

/-- All integers in a value are in range. -/
inductive Value.InRange : Value → Prop where
  | string (s : String) : Value.InRange (.string s)
  | integer {n : Int} (h : -0x8000000000000000 ≤ n ∧ n < 0x8000000000000000) :
      Value.InRange (.integer n)
  | float : Value.InRange .float
  | boolean (b : Bool) : Value.InRange (.boolean b)
  | dateTime : Value.InRange .dateTime
  | array {items : List Value} (h : ∀ v ∈ items, Value.InRange v) : Value.InRange (.array items)
  | table {t : Table} (h : Table.InRange t) : Value.InRange (.table t)
  | tables {earlier : List Table} {last : Table} (h : ∀ t ∈ earlier, Table.InRange t)
      (hlast : Table.InRange last) : Value.InRange (.tables earlier last)

/-- All integers in a table are in range. -/
inductive Table.InRange : Table → Prop where
  | mk {origin : Origin} {entries : List (String × Value)}
      (h : ∀ e ∈ entries, Value.InRange e.2) : Table.InRange ⟨origin, entries⟩

end

/-! ## Tables -/

namespace Table

variable {t t' : Table} {key : String} {path : List String} {v : Value}

theorem InRange.of_mem (h : t.InRange) : ∀ e ∈ t.entries, e.2.InRange := by
  cases h with
  | mk h => exact h

theorem inRange_empty (origin : Origin) : (empty origin).InRange :=
  .mk (List.forall_mem_nil _)

theorem InRange.get? (h : t.InRange) (hv : t.get? key = some v) : v.InRange := by
  obtain ⟨before, after, hentries, -⟩ := List.lookup_eq_some_iff.1 hv
  exact h.of_mem (key, v) (by rw [hentries]; simp)

theorem InRange.set (h : t.InRange) (key : String) (hv : v.InRange) : (t.set key v).InRange := by
  refine .mk fun e he => ?_
  rcases List.mem_append.1 he with he | he
  · exact h.of_mem e (List.mem_filter.1 he).1
  · rw [List.mem_singleton.1 he]
    exact hv

/-- What keeps to the range at the end of a path does so at its start. -/
theorem InRange.modifyAt {dotted : Bool} {change : Table → Option Table}
    (hchange : ∀ s s', s.InRange → change s = some s' → s'.InRange) (h : t.InRange)
    (ht : modifyAt dotted change path t = some t') : t'.InRange := by
  -- On the path: only the table at its end changes, all others are put back.
  fun_induction Table.modifyAt dotted change path t generalizing t' with
  | case1 t => exact hchange t t' h ht
  | case2 key keys t hnone ih =>
    obtain ⟨s, hs, rfl⟩ := Option.map_eq_some_iff.1 ht
    exact h.set key (.table (ih (inRange_empty _) hs))
  | case3 => cases ht
  | case4 key keys t s hsome hopen ih =>
    obtain ⟨s', hs', rfl⟩ := Option.map_eq_some_iff.1 ht
    cases h.get? hsome with
    | table hs => exact h.set key (.table (ih hs hs'))
  | case5 key keys t earlier last hsome ih =>
    obtain ⟨last', hlast', rfl⟩ := Option.map_eq_some_iff.1 ht
    cases h.get? hsome with
    | tables hearlier hlast => exact h.set key (.tables hearlier (ih hlast hlast'))
  | case6 => cases ht

theorem InRange.define (h : t.InRange) (hv : v.InRange) (ht : define path key v t = some t') :
    t'.InRange := by
  refine h.modifyAt (fun s s' hs hs' => ?_) ht
  split at hs'
  · cases hs'
  · cases hs'
    exact hs.set key hv

theorem InRange.openTable (h : t.InRange) (ht : openTable path key t = some t') : t'.InRange := by
  refine h.modifyAt (fun s s' hs hs' => ?_) ht
  split at hs'
  · cases hs'
    exact hs.set key (.table (inRange_empty _))
  next entries hsome =>
    cases hs'
    cases hs.get? hsome with
    | table hentries => exact hs.set key (.table (.mk hentries.of_mem))
  · cases hs'

theorem InRange.appendTable (h : t.InRange) (ht : appendTable path key t = some t') :
    t'.InRange := by
  refine h.modifyAt (fun s s' hs hs' => ?_) ht
  -- The key is new, names an array of tables, or something else, which is refused.
  split at hs'
  · cases hs'
    exact hs.set key (.tables (List.forall_mem_nil _) (inRange_empty _))
  next earlier last hsome =>
    cases hs'
    cases hs.get? hsome with
    | tables hearlier hlast =>
      refine hs.set key (.tables (fun t ht => ?_) (inRange_empty _))
      rcases List.mem_append.1 ht with ht | ht
      · exact hearlier t ht
      · rw [List.mem_singleton.1 ht]
        exact hlast
  · cases hs'

end Table

/-! ## Values -/

theorem inRange_of_int64? {m n : Int} (h : int64? m = some n) :
    -0x8000000000000000 ≤ n ∧ n < 0x8000000000000000 := by
  unfold int64? at h
  split at h
  next hrange =>
    cases h
    exact hrange
  next => cases h

theorem inRange_of_based? {base : Nat} {cs : List Char} {n : Int} (h : based? base cs = some n) :
    -0x8000000000000000 ≤ n ∧ n < 0x8000000000000000 := by
  obtain ⟨digits, -, h⟩ := Option.bind_eq_some_iff.1 h
  exact inRange_of_int64? h

theorem inRange_of_integer? {cs : List Char} {n : Int} (h : integer? cs = some n) :
    -0x8000000000000000 ≤ n ∧ n < 0x8000000000000000 := by
  unfold integer? at h
  split at h
  · exact inRange_of_based? h
  · exact inRange_of_based? h
  · exact inRange_of_based? h
  · obtain ⟨digits, -, h⟩ := Option.bind_eq_some_iff.1 h
    exact inRange_of_int64? h

theorem inRange_of_scalar? {cs : List Char} {v : Value} (h : scalar? cs = some v) : v.InRange := by
  -- Only the last kind of scalar holds a number.
  unfold scalar? at h
  split at h
  · cases h
    exact .boolean true
  · split at h
    · cases h
      exact .boolean false
    · split at h
      · cases h
        exact .dateTime
      · split at h
        · cases h
          exact .float
        · obtain ⟨n, hn, rfl⟩ := Option.map_eq_some_iff.1 h
          exact .integer (inRange_of_integer? hn)

/-- A reader that yields nothing out of range. -/
def Reader.InRange (item : Reader Value) : Prop :=
  ∀ cs v rest, item cs = some (v, rest) → v.InRange

theorem inRange_readScalar? : Reader.InRange readScalar? := by
  intro cs v rest h
  have hmap : ∀ (word : List Char) (rest' : List Char),
      (scalar? word).map (fun v => (v, rest')) = some (v, rest) → v.InRange := by
    intro word rest' h
    obtain ⟨w, hw, hvw⟩ := Option.map_eq_some_iff.1 h
    cases hvw
    exact inRange_of_scalar? hw
  simp only [readScalar?] at h
  split at h
  · split at h
    · exact hmap _ _ h
    · exact hmap _ _ h
  · exact hmap _ _ h

variable {item : Reader Value}

/-- The items of an array are in range if those of its reader are. -/
theorem inRange_of_readItems? (hitem : item.InRange) {cs rest : List Char} {vs : List Value}
    (h : readItems? item cs = some (vs, rest)) : ∀ v ∈ vs, v.InRange := by
  -- On the characters left, as the reader of items.
  induction hn : cs.length using Nat.strongRecOn generalizing cs vs rest with
  | ind n ih =>
    rw [readItems?] at h
    split at h
    · cases h
      exact List.forall_mem_nil _
    · obtain ⟨⟨v, r⟩, hv, h⟩ := Option.bind_eq_some_iff.1 h
      simp only at h
      split at h
      · cases h
        exact List.forall_mem_singleton.2 (hitem _ _ _ hv)
      · split at h
        next hlt =>
          obtain ⟨⟨ws, r'⟩, hws, h⟩ := Option.bind_eq_some_iff.1 h
          cases h
          exact List.forall_mem_cons.2 ⟨hitem _ _ _ hv, ih _ (hn ▸ hlt) hws rfl⟩
        next => cases h
      · cases h

/-- The value that a pair gives its key. -/
abbrev PairInRange (pair : List String × String × Value) : Prop :=
  pair.2.2.InRange

theorem inRange_of_readPair? (hitem : item.InRange) {cs rest : List Char}
    {pair : List String × String × Value} (h : readPair? item cs = some (pair, rest)) :
    PairInRange pair := by
  obtain ⟨⟨path, key, r⟩, -, h⟩ := Option.bind_eq_some_iff.1 h
  simp only at h
  split at h
  · obtain ⟨⟨v, r'⟩, hv, h⟩ := Option.bind_eq_some_iff.1 h
    cases h
    exact hitem _ _ _ hv
  · cases h

theorem inRange_of_readPairs? (hitem : item.InRange) {cs rest : List Char}
    {pairs : List (List String × String × Value)}
    (h : readPairs? item cs = some (pairs, rest)) : ∀ pair ∈ pairs, PairInRange pair := by
  -- On the characters left, as the reader of pairs.
  induction hn : cs.length using Nat.strongRecOn generalizing cs pairs rest with
  | ind n ih =>
    rw [readPairs?] at h
    obtain ⟨⟨pair, r⟩, hpair, h⟩ := Option.bind_eq_some_iff.1 h
    simp only at h
    split at h
    · cases h
      exact List.forall_mem_singleton.2 (inRange_of_readPair? hitem hpair)
    · split at h
      next hlt =>
        obtain ⟨⟨ps, r'⟩, hps, h⟩ := Option.bind_eq_some_iff.1 h
        cases h
        exact List.forall_mem_cons.2 ⟨inRange_of_readPair? hitem hpair, ih _ (hn ▸ hlt) hps rfl⟩
      next => cases h
    · cases h

theorem inRange_of_inlineTable? {pairs : List (List String × String × Value)} {v : Value}
    (hpairs : ∀ pair ∈ pairs, PairInRange pair) (h : inlineTable? pairs = some v) : v.InRange := by
  obtain ⟨t, ht, rfl⟩ := Option.map_eq_some_iff.1 h
  -- On the pairs, with the table that those before have made.
  have hfold : ∀ t₀ : Table, t₀.InRange →
      pairs.foldlM (fun t p => Table.define p.1 p.2.1 p.2.2 t) t₀ = some t → t.InRange := by
    clear h ht
    induction pairs with
    | nil =>
      rintro t₀ h₀ ⟨⟩
      exact h₀
    | cons pair pairs ih =>
      intro t₀ h₀ h
      obtain ⟨hpair, hrest⟩ := List.forall_mem_cons.1 hpairs
      rw [List.foldlM_cons] at h
      obtain ⟨t₁, h₁, h⟩ := Option.bind_eq_some_iff.1 h
      exact ih hrest t₁ (h₀.define hpair h₁) h
  exact .table (hfold _ (Table.inRange_empty _) ht)

/-- Every value that is read is in range, by induction on its depth. -/
theorem inRange_readValue? (depth : Nat) : Reader.InRange (readValue? depth) := by
  induction depth with
  | zero =>
    intro cs v rest h
    cases h
  | succ depth ih =>
    intro cs v rest h
    unfold readValue? at h
    -- An array, an inline table, a string or a scalar, by the first character.
    split at h
    · split at h
      · cases h
      · obtain ⟨⟨vs, r⟩, hvs, hv⟩ := Option.map_eq_some_iff.1 h
        cases hv
        exact .array (inRange_of_readItems? ih hvs)
    · split at h
      · cases h
      · split at h
        · cases h
          exact .table (Table.inRange_empty _)
        · obtain ⟨⟨pairs, r⟩, hpairs, h⟩ := Option.bind_eq_some_iff.1 h
          obtain ⟨w, hw, h⟩ := Option.bind_eq_some_iff.1 h
          cases h
          exact inRange_of_inlineTable? (inRange_of_readPairs? ih hpairs) hw
    · split at h
      · obtain ⟨⟨s, r⟩, -, hv⟩ := Option.map_eq_some_iff.1 h
        cases hv
        exact .string _
      · exact inRange_readScalar? _ _ _ h
    · cases h

/-! ## Documents -/

/-- A statement gives its key nothing out of range. -/
inductive Statement.InRange : Statement → Prop where
  | header (path : List String) (key : String) : Statement.InRange (.header path key)
  | arrayHeader (path : List String) (key : String) : Statement.InRange (.arrayHeader path key)
  | pair {path : List String} {key : String} {v : Value} (h : v.InRange) :
      Statement.InRange (.pair path key v)

theorem inRange_of_readStatement? {cs rest : List Char} {statement : Statement}
    (h : readStatement? cs = some (statement, rest)) : statement.InRange := by
  unfold readStatement? at h
  -- Only a pair holds a value.
  split at h
  · obtain ⟨⟨path, key, r⟩, -, h⟩ := Option.bind_eq_some_iff.1 h
    simp only at h
    split at h
    · cases h
      exact .arrayHeader _ _
    · cases h
  · obtain ⟨⟨path, key, r⟩, -, h⟩ := Option.bind_eq_some_iff.1 h
    simp only at h
    split at h
    · cases h
      exact .header _ _
    · cases h
  · obtain ⟨⟨pair, r⟩, hpair, h⟩ := Option.bind_eq_some_iff.1 h
    cases h
    exact .pair (inRange_of_readPair? (inRange_readValue? _) hpair)

theorem inRange_of_readStatements? {cs : List Char} {statements : List Statement}
    (h : readStatements? cs = some statements) : ∀ s ∈ statements, s.InRange := by
  -- On the characters left; each statement reads one at least.
  induction hn : cs.length using Nat.strongRecOn generalizing cs statements with
  | ind n ih =>
    rw [readStatements?] at h
    split at h
    · cases h
      exact List.forall_mem_nil _
    · split at h
      · obtain ⟨r, -, h⟩ := Option.bind_eq_some_iff.1 h
        split at h
        next hlt => exact ih _ (hn ▸ hlt) h rfl
        next => cases h
      · obtain ⟨⟨s, r⟩, hs, h⟩ := Option.bind_eq_some_iff.1 h
        obtain ⟨r', -, h⟩ := Option.bind_eq_some_iff.1 h
        split at h
        next hlt =>
          obtain ⟨ss, hss, h⟩ := Option.bind_eq_some_iff.1 h
          cases h
          exact List.forall_mem_cons.2 ⟨inRange_of_readStatement? hs, ih _ (hn ▸ hlt) hss rfl⟩
        next => cases h

/-- Statements build nothing out of range. -/
theorem inRange_of_build? {header : List String} {statements : List Statement} {root t : Table}
    (hstatements : ∀ s ∈ statements, s.InRange) (hroot : root.InRange)
    (h : build? header statements root = some t) : t.InRange := by
  induction statements generalizing header root with
  | nil =>
    cases h
    exact hroot
  | cons s statements ih =>
    obtain ⟨hs, hrest⟩ := List.forall_mem_cons.1 hstatements
    cases hs with
    | header path key =>
      obtain ⟨root', hroot', h⟩ := Option.bind_eq_some_iff.1 h
      exact ih hrest (hroot.openTable hroot') h
    | arrayHeader path key =>
      obtain ⟨root', hroot', h⟩ := Option.bind_eq_some_iff.1 h
      exact ih hrest (hroot.appendTable hroot') h
    | pair hv =>
      obtain ⟨root', hroot', h⟩ := Option.bind_eq_some_iff.1 h
      exact ih hrest (hroot.modifyAt (fun _ _ hs hs' => hs.define hv hs') hroot') h

/-- Every integer of a document that is read fits into 64 bits. -/
theorem inRange_of_parse? {cs : List Char} {t : Table} (h : parse? cs = some t) : t.InRange := by
  obtain ⟨statements, hstatements, h⟩ := Option.bind_eq_some_iff.1 h
  exact inRange_of_build? (inRange_of_readStatements? hstatements) (Table.inRange_empty _) h

end Lexis.Toml

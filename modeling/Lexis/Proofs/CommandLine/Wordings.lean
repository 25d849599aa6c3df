/-
  Lexis.Proofs.CommandLine.Wordings

  All the ways to write a request on a command line, and that each is read back.

  A wording places every setting once: those that any command takes before the name of the command
  or behind it, those of the command behind it, in any order. Since no option is set twice, each
  setting fits where it stands, and what has been taken up at the end is just what was placed. A
  number may have a plus and zeros in front; one past 64 bits is refused wherever it stands.
-/

import Lexis.Proofs.CommandLine.Written
import Lexis.Proofs.Text.Digits
import Lexis.Run.Program

namespace Lexis.CommandLine

open Lexis.Text (isDigit)

variable {level : Level} {g : Given} {r : Request} {args : List String}

/-! ## Settings in any order -/

/-- The option that a setting is given by. -/
def Setting.opt : Setting → Opt
  | verbose => .verbose
  | noColor => .noColor
  | config _ => .config
  | format _ => .format
  | spans => .spans
  | maxErrors _ => .maxErrors

/-- A setting is among what is given. -/
def Given.Has (g : Given) : Setting → Prop
  | .verbose => g.verbose = true
  | .noColor => g.noColor = true
  | .config path => g.config = some path
  | .format name => g.format = some name
  | .spans => g.spans = true
  | .maxErrors n => g.maxErrors = some n

theorem Given.not_has_empty (s : Setting) : ¬ ({} : Given).Has s := by
  cases s <;> simp [Given.Has]

section Take

variable {s t : Setting}

/-! What stands for an option is changed by no setting of another option. -/

theorem Given.verbose_take (h : .verbose ≠ s.opt) : (g.take s).verbose = g.verbose := by
  cases s with
  | verbose => exact absurd rfl h
  | noColor | config | format | spans | maxErrors => rfl

theorem Given.noColor_take (h : .noColor ≠ s.opt) : (g.take s).noColor = g.noColor := by
  cases s with
  | noColor => exact absurd rfl h
  | verbose | config | format | spans | maxErrors => rfl

theorem Given.config_take (h : .config ≠ s.opt) : (g.take s).config = g.config := by
  cases s with
  | config => exact absurd rfl h
  | verbose | noColor | format | spans | maxErrors => rfl

theorem Given.format_take (h : .format ≠ s.opt) : (g.take s).format = g.format := by
  cases s with
  | format => exact absurd rfl h
  | verbose | noColor | config | spans | maxErrors => rfl

theorem Given.spans_take (h : .spans ≠ s.opt) : (g.take s).spans = g.spans := by
  cases s with
  | spans => exact absurd rfl h
  | verbose | noColor | config | format | maxErrors => rfl

theorem Given.maxErrors_take (h : .maxErrors ≠ s.opt) : (g.take s).maxErrors = g.maxErrors := by
  cases s with
  | maxErrors => exact absurd rfl h
  | verbose | noColor | config | format | spans => rfl

theorem Given.has_take_of_opt_ne (h : t.opt ≠ s.opt) : (g.take s).Has t ↔ g.Has t := by
  cases t with
  | verbose => rw [Has, Has, verbose_take h]
  | noColor => rw [Has, Has, noColor_take h]
  | config path => rw [Has, Has, config_take h]
  | format name => rw [Has, Has, format_take h]
  | spans => rw [Has, Has, spans_take h]
  | maxErrors n => rw [Has, Has, maxErrors_take h]

/-- Where a setting fits nothing of its option was given, so behind it the option is given just
    that. -/
theorem Given.has_take_of_opt_eq (h : s.Fits level g) (hopt : t.opt = s.opt) :
    (g.take s).Has t ↔ g.Has t ∨ s = t := by
  -- For each setting its own option, as no other is spelled that way.
  cases s with
  | verbose =>
    cases t with
    | verbose => exact ⟨fun _ => .inr rfl, fun _ => rfl⟩
    | noColor | config | format | spans | maxErrors => cases hopt
  | noColor =>
    cases t with
    | noColor => exact ⟨fun _ => .inr rfl, fun _ => rfl⟩
    | verbose | config | format | spans | maxErrors => cases hopt
  | config path =>
    cases t with
    | config path' =>
      obtain ⟨hnone, -⟩ : g.config = none ∧ path ≠ "" := h
      simp [Has, take, hnone]
    | verbose | noColor | format | spans | maxErrors => cases hopt
  | format name =>
    cases t with
    | format name' =>
      obtain ⟨-, hnone⟩ : level = .tokens ∧ g.format = none := h
      simp [Has, take, hnone]
    | verbose | noColor | config | spans | maxErrors => cases hopt
  | spans =>
    cases t with
    | spans => exact ⟨fun _ => .inr rfl, fun _ => rfl⟩
    | verbose | noColor | config | format | maxErrors => cases hopt
  | maxErrors n =>
    cases t with
    | maxErrors n' =>
      obtain ⟨-, hnone⟩ : level = .check ∧ g.maxErrors = none := h
      simp [Has, take, hnone]
    | verbose | noColor | config | format | spans => cases hopt

/-- A setting that fits only adds to what is given. -/
theorem Given.has_take (h : s.Fits level g) : (g.take s).Has t ↔ g.Has t ∨ s = t := by
  by_cases hopt : t.opt = s.opt
  · exact has_take_of_opt_eq h hopt
  · have hne : s ≠ t := fun heq => hopt (congrArg Setting.opt heq.symm)
    rw [has_take_of_opt_ne hopt, or_iff_left hne]

/-- A setting fits behind one of another option as it did before. -/
theorem Setting.Fits.take (h : t.Fits level g) (hopt : t.opt ≠ s.opt) :
    t.Fits level (g.take s) := by
  cases t with
  | verbose => exact (Given.verbose_take hopt).trans h
  | noColor => exact (Given.noColor_take hopt).trans h
  | config path => exact ⟨(Given.config_take hopt).trans h.1, h.2⟩
  | format name => exact ⟨h.1, (Given.format_take hopt).trans h.2⟩
  | spans => exact ⟨h.1, (Given.spans_take hopt).trans h.2⟩
  | maxErrors n => exact ⟨h.1, (Given.maxErrors_take hopt).trans h.2⟩

end Take

/-- Settings of different options that each fit at the start fit one behind the other. -/
theorem fitAll_of_nodup {ss : List Setting} (hfits : ∀ s ∈ ss, s.Fits level g)
    (hopts : (ss.map Setting.opt).Nodup) : FitAll level g ss := by
  induction ss generalizing g with
  | nil => trivial
  | cons s ss ih =>
    obtain ⟨hs, hss⟩ := List.forall_mem_cons.1 hfits
    rw [List.map_cons, List.nodup_cons] at hopts
    refine ⟨hs, ih (fun t ht => (hss t ht).take fun hopt => hopts.1 ?_) hopts.2⟩
    exact hopt ▸ List.mem_map_of_mem ht

/-- After a row of settings exactly those are given that were given before or stand in the row. -/
theorem has_foldl_take {ss : List Setting} {t : Setting} (h : FitAll level g ss) :
    (ss.foldl Given.take g).Has t ↔ g.Has t ∨ t ∈ ss := by
  induction ss generalizing g with
  | nil => simp
  | cons s ss ih =>
    rw [List.foldl_cons, ih h.2, Given.has_take h.1, List.mem_cons, or_assoc, eq_comm]

/-- Files do not matter for what is set, so they may come in behind the settings. -/
theorem has_withInputs {ss : List Setting} {t : Setting} (h : FitAll level {} ss)
    (inputs : List String) :
    ({ ss.foldl Given.take {} with inputs := inputs } : Given).Has t ↔ t ∈ ss := by
  have hiff := has_foldl_take (t := t) h
  simp only [Given.not_has_empty, false_or] at hiff
  cases t <;> exact hiff

/-! ## Numbers -/

/-- A number in decimal, perhaps with a plus and with zeros in front. -/
def CountText (n : Nat) (count : String) : Prop :=
  ∃ sign ∈ ["", "+"], ∃ zeros : Nat,
    count = sign ++ String.ofList (List.replicate zeros '0') ++ toString n

/-- The usual digits of a number are one of its texts. -/
theorem countText_toString (n : Nat) : CountText n (toString n) :=
  ⟨"", by simp, 0, by simp⟩

/-- Zeros in front change no number. -/
theorem ofDigits_zeros_append (zeros : Nat) (ds : List Char) :
    Numeral.ofDigits (List.replicate zeros '0' ++ ds) = Numeral.ofDigits ds := by
  induction zeros with
  | zero => rfl
  | succ zeros ih =>
    rw [List.replicate_succ, List.cons_append, ← ih]
    rfl

/-- Behind the sign stand digits, and their number is read if it fits in 64 bits. -/
theorem readCount?_digits {sign : String} {ds : List Char} (hsign : sign ∈ ["", "+"])
    (hne : ds ≠ []) (hdigits : ds.all isDigit = true) :
    readCount? (sign ++ String.ofList ds) =
      if Numeral.ofDigits ds < 0x10000000000000000 then some (Numeral.ofDigits ds) else none := by
  -- No digit is a plus.
  have hunsigned : ∀ cs, ds ≠ '+' :: cs := by
    rintro cs rfl
    exact absurd hdigits (by simp [isDigit])
  simp only [List.mem_cons, List.not_mem_nil, or_false] at hsign
  unfold readCount?
  rcases hsign with rfl | rfl
  · have hlist : ("" ++ String.ofList ds).toList = ds := by simp
    rw [hlist]
    split
    next cs => exact absurd rfl (hunsigned cs)
    next => simp [hne, hdigits]
  · have hlist : ("+" ++ String.ofList ds).toList = '+' :: ds := by simp
    rw [hlist]
    simp [hne, hdigits]

/-- A text of a count reads back as that count, or is refused past 64 bits. -/
theorem readCount?_of_countText {n : Nat} {count : String} (h : CountText n count) :
    readCount? count = if n < 0x10000000000000000 then some n else none := by
  obtain ⟨sign, hsign, zeros, rfl⟩ := h
  have hlist : sign ++ String.ofList (List.replicate zeros '0') ++ toString n =
      sign ++ String.ofList (List.replicate zeros '0' ++ Nat.toDigits 10 n) := by
    rw [String.append_assoc, String.ofList_append]
    rfl
  have hvalue : Numeral.ofDigits (List.replicate zeros '0' ++ Nat.toDigits 10 n) = n :=
    (ofDigits_zeros_append zeros _).trans (Nat.ofDigitChars_toDigits (by decide) (by decide))
  have hne : List.replicate zeros '0' ++ Nat.toDigits 10 n ≠ [] :=
    List.append_ne_nil_of_right_ne_nil _ Nat.toDigits_ne_nil
  -- Zeros and digits alike are digits, so the reader of numbers takes them all.
  have hdigits : (List.replicate zeros '0' ++ Nat.toDigits 10 n).all isDigit = true := by
    rw [List.all_eq_true]
    intro c hc
    rcases List.mem_append.1 hc with hc | hc
    · rw [List.eq_of_mem_replicate hc]
      rfl
    · exact Text.isDigit_of_mem_toDigits hc
  rw [hlist, readCount?_digits hsign hne hdigits, hvalue]

/-! ## Wordings -/

/-- The arguments that write a setting, said without the reader. -/
inductive Spells : Setting → String → Prop where
  | count {n : Nat} {count : String} (h : CountText n count) :
      Spells (.maxErrors n) ("--max-errors=" ++ count)
  | other {s : Setting} {arg : String} (hs : ∀ n, s ≠ .maxErrors n) (h : Writes s arg) :
      Spells s arg

/-- The ways to write a request: each setting once, in any order, those of any command before its
    name or behind it and its own behind it, and behind two hyphens the files as they are. -/
inductive Request.Worded (r : Request) : List String → Prop where
  | mk {outer inner : List Setting} {before after : List String}
      (hperm : (outer ++ inner).Perm (r.settings ++ r.command.settings))
      (houter : ∀ s ∈ outer, s ∈ r.settings) (hbefore : List.Forall₂ Spells outer before)
      (hafter : List.Forall₂ Spells inner after) :
      Worded r (before ++ r.command.name :: (after ++ "--" :: r.command.inputs))

/-- A request with files, where nothing that must have a name goes without. -/
structure Request.Expressible (r : Request) : Prop where
  config_ne : r.config ≠ some ""
  inputs_ne_nil : r.command.inputs ≠ []
  ne_empty : ∀ path ∈ r.command.inputs, path ≠ ""

/-- The number of a command fits in 64 bits, if it has one. -/
def Command.CountFits (c : Command) : Prop :=
  ∀ inputs n, c = .check inputs (some n) → n < 0x10000000000000000

/-- A spelling of a setting is an argument that writes it, if its count fits into 64 bits. -/
theorem Spells.writes {s : Setting} {arg : String} (h : Spells s arg)
    (hs : ∀ n, s = .maxErrors n → n < 0x10000000000000000) : Writes s arg := by
  cases h with
  | count hcount => exact .maxErrors ((readCount?_of_countText hcount).trans (if_pos (hs _ rfl)))
  | other _ h => exact h

theorem forall₂_writes {ss : List Setting} {written : List String}
    (h : List.Forall₂ Spells ss written)
    (hs : ∀ s ∈ ss, ∀ n, s = .maxErrors n → n < 0x10000000000000000) :
    List.Forall₂ Writes ss written :=
  ((List.forall₂_and_left ss written).2 ⟨hs, h⟩).imp fun _ _ h => h.2.writes h.1

/-- The argument a setting is written as is one of its spellings. -/
theorem spells_argument (s : Setting) : Spells s s.argument := by
  cases s with
  | verbose => exact .other (fun _ => nofun) .short
  | noColor => exact .other (fun _ => nofun) .noColor
  | config path => exact .other (fun _ => nofun) (.config path)
  | format name => exact .other (fun _ => nofun) (.format name)
  | spans => exact .other (fun _ => nofun) .spans
  | maxErrors n => exact .count (countText_toString n)

/-- The arguments of a request are one of its wordings, so every request has one. -/
theorem worded_arguments (r : Request) : r.Worded r.arguments := by
  have hspells : ∀ ss : List Setting, List.Forall₂ Spells ss (ss.map Setting.argument) := by
    intro ss
    rw [List.forall₂_map_right_iff, List.forall₂_same]
    exact fun s _ => spells_argument s
  exact .mk (.refl _) (fun _ hs => hs) (hspells _) (hspells _)

/-! ## The settings of a request -/

/-- The settings of a request before its command, by what the request asks for. -/
theorem mem_settings {s : Setting} :
    s ∈ r.settings ↔ match s with
      | .verbose => r.verbose = true
      | .noColor => r.noColor = true
      | .config path => r.config = some path
      | _ => False := by
  have hflag : ∀ (b : Bool) (t : Setting), s ∈ (if b then [t] else []) ↔ b = true ∧ s = t := by
    intro b t
    cases b <;> simp
  rw [Request.settings, List.mem_append, List.mem_append, hflag, hflag, Option.mem_toList,
    Option.map_eq_some_iff]
  cases s <;> simp

/-- The settings of a command, by what the command asks for. -/
theorem mem_command_settings {c : Command} {s : Setting} :
    s ∈ c.settings ↔ match s, c with
      | .format name, .tokens _ format _ => format = some name
      | .spans, .tokens _ _ spans => spans = true
      | .maxErrors n, .check _ maxErrors => maxErrors = some n
      | _, _ => False := by
  cases c with
  | tokens inputs format spans =>
    have hspans : s ∈ (if spans then [Setting.spans] else []) ↔ spans = true ∧ s = .spans := by
      -- The flag is one setting or none.
      cases spans <;> simp
    rw [Command.settings, List.mem_append, hspans, Option.mem_toList, Option.map_eq_some_iff]
    cases s <;> simp
  | check inputs maxErrors =>
    rw [Command.settings, Option.mem_toList, Option.map_eq_some_iff]
    cases s <;> simp

/-- The options that any command takes are set in one order, each at most once. -/
theorem sublist_opts_settings (r : Request) :
    (r.settings.map Setting.opt).Sublist [.verbose, .noColor, .config] := by
  -- A setting is written once or not at all, so each option stands once at most.
  have hflag : ∀ (b : Bool) (t : Setting),
      ((if b then [t] else []).map Setting.opt).Sublist [t.opt] := by
    intro b t
    cases b with
    | true => exact .refl _
    | false => exact List.nil_sublist _
  have hconfig : ((r.config.map Setting.config).toList.map Setting.opt).Sublist [.config] := by
    cases r.config with
    | some path => exact .refl _
    | none => exact List.nil_sublist _
  rw [Request.settings, List.map_append, List.map_append]
  exact ((hflag _ .verbose).append (hflag _ .noColor)).append hconfig

/-- So are the options of a command. -/
theorem sublist_opts_command_settings (c : Command) :
    (c.settings.map Setting.opt).Sublist [.format, .spans, .maxErrors] := by
  cases c with
  | tokens inputs format spans =>
    have hformat : ((format.map Setting.format).toList.map Setting.opt).Sublist [.format] := by
      cases format with
      | some name => exact .refl _
      | none => exact List.nil_sublist _
    have hspans : ((if spans then [Setting.spans] else []).map Setting.opt).Sublist
        [.spans, .maxErrors] := by
      cases spans with
      | true => exact List.sublist_append_left [Opt.spans] [Opt.maxErrors]
      | false => exact List.nil_sublist _
    rw [Command.settings, List.map_append]
    exact hformat.append hspans
  | check inputs maxErrors =>
    -- A check has one setting at most.
    cases maxErrors with
    | some n => exact List.sublist_append_right [Opt.format, Opt.spans] [Opt.maxErrors]
    | none => exact List.nil_sublist _

/-- No option is set twice. -/
theorem nodup_opts (r : Request) :
    ((r.settings ++ r.command.settings).map Setting.opt).Nodup := by
  rw [List.map_append]
  exact ((sublist_opts_settings r).append (sublist_opts_command_settings r.command)).nodup
    (by decide)

/-- A setting of the request fits at either level as long as nothing else is given. -/
theorem fits_of_mem_settings {s : Setting} (hconfig : r.config ≠ some "") (h : s ∈ r.settings) :
    s.Fits level {} := by
  rw [mem_settings] at h
  cases s with
  | verbose | noColor => rfl
  | config path => exact ⟨rfl, fun hempty => hconfig (hempty ▸ h)⟩
  | format | spans | maxErrors => exact absurd h id

/-- A setting of the command fits behind its name. -/
theorem fits_of_mem_command_settings {c : Command} {s : Setting} (h : s ∈ c.settings) :
    s.Fits c.level {} := by
  rw [mem_command_settings] at h
  cases c with
  | tokens inputs format spans =>
    cases s with
    | format | spans => exact ⟨rfl, rfl⟩
    | verbose | noColor | config | maxErrors => exact absurd h id
  | check inputs maxErrors =>
    cases s with
    | maxErrors => exact ⟨rfl, rfl⟩
    | verbose | noColor | config | format | spans => exact absurd h id

/-- The only count of a request is its command's limit. -/
theorem lt_of_mem_settings {n : Nat} (hcount : r.command.CountFits)
    (h : .maxErrors n ∈ r.settings ++ r.command.settings) : n < 0x10000000000000000 := by
  rcases List.mem_append.1 h with h | h
  · exact absurd (mem_settings.1 h) id
  · rw [mem_command_settings] at h
    cases hcommand : r.command with
    | tokens inputs format spans =>
      rw [hcommand] at h
      exact absurd h id
    | check inputs maxErrors =>
      rw [hcommand] at h
      exact hcount inputs n (hcommand.trans (congrArg _ h))

/-! ## Settings at their places -/

section Placed

variable {outer inner : List Setting} {before after : List String}

/-- However the settings are dealt out, no option stands twice on one side of the command. -/
theorem nodup_opts_of_perm (hperm : (outer ++ inner).Perm (r.settings ++ r.command.settings)) :
    (outer.map Setting.opt).Nodup ∧ (inner.map Setting.opt).Nodup := by
  have hopts := (hperm.map Setting.opt).nodup_iff.2 (nodup_opts r)
  rw [List.map_append, List.nodup_append] at hopts
  exact ⟨hopts.1, hopts.2.1⟩

/-- What stands before the command is taken up in any order. -/
theorem fitAll_outer (hperm : (outer ++ inner).Perm (r.settings ++ r.command.settings))
    (houter : ∀ s ∈ outer, s ∈ r.settings) (hconfig : r.config ≠ some "") :
    FitAll .root {} outer :=
  fitAll_of_nodup (fun s hs => fits_of_mem_settings hconfig (houter s hs))
    (nodup_opts_of_perm hperm).1

theorem fitAll_inner (hperm : (outer ++ inner).Perm (r.settings ++ r.command.settings))
    (hconfig : r.config ≠ some "") : FitAll r.command.level {} inner := by
  refine fitAll_of_nodup (fun s hs => ?_) (nodup_opts_of_perm hperm).2
  rcases List.mem_append.1 (hperm.subset (List.mem_append_right outer hs)) with h | h
  · exact fits_of_mem_settings hconfig h
  · exact fits_of_mem_command_settings h

/-- An option that is given on one side or the other is the first of the two. -/
theorem orElse_eq_of_forall {α : Type} {a b c : Option α}
    (h : ∀ x, a = some x ∨ b = some x ↔ c = some x) : (b <|> a) = c := by
  cases b with
  | none =>
    refine Option.ext fun x => ?_
    rw [← h x]
    simp
  | some y => exact ((h y).1 (.inr rfl)).symm

/-- What is set at the two places together makes the request again. -/
theorem parsed_of_has {root given : Given} (hne : r.command.inputs ≠ [])
    (hinputs : given.inputs = r.command.inputs)
    (h : ∀ s, root.Has s ∨ given.Has s ↔ s ∈ r.settings ++ r.command.settings)
    (hroot : ∀ s, root.Has s → s ∈ r.settings) : Parsed {} root r.command.level given r where
  inputs_ne_nil := hinputs ▸ hne
  verbose := by
    have hiff := h .verbose
    simp only [List.mem_append, mem_settings, mem_command_settings, Given.Has] at hiff
    rw [mergeFlag_none, Except.ok.injEq, Bool.eq_iff_iff, Bool.or_eq_true]
    simpa using hiff
  noColor := by
    have hiff := h .noColor
    simp only [List.mem_append, mem_settings, mem_command_settings, Given.Has] at hiff
    rw [mergeFlag_none, Except.ok.injEq, Bool.eq_iff_iff, Bool.or_eq_true]
    simpa using hiff
  config := by
    have hiff : ∀ path, root.config = some path ∨ given.config = some path ↔
        r.config = some path := by
      intro path
      have hiff := h (.config path)
      simp only [List.mem_append, mem_settings, mem_command_settings, Given.Has] at hiff
      simpa using hiff
    rw [mergePath_none, orElse_eq_of_forall hiff]
  command_eq := by
    -- A setting of the command itself can only stand behind its name.
    have hown : ∀ s, s ∉ r.settings → (given.Has s ↔ s ∈ r.command.settings) := by
      intro s hs
      have hnot : ¬ root.Has s := fun hhas => hs (hroot s hhas)
      simpa [hs, hnot] using h s
    cases hcommand : r.command with
    | tokens inputs format spans =>
      rw [hcommand] at hinputs hown
      have hformat : given.format = format := by
        refine Option.ext fun name => ?_
        simpa [mem_command_settings, Given.Has] using hown (.format name) (by simp [mem_settings])
      have hspans : given.spans = spans := by
        rw [Bool.eq_iff_iff]
        simpa [mem_command_settings, Given.Has] using hown .spans (by simp [mem_settings])
      rw [if_neg Level.noConfusion, hinputs, hformat, hspans]
      rfl
    | check inputs maxErrors =>
      rw [hcommand] at hinputs hown
      have hmax : given.maxErrors = maxErrors := by
        refine Option.ext fun n => ?_
        simpa [mem_command_settings, Given.Has] using hown (.maxErrors n) (by simp [mem_settings])
      rw [hinputs, hmax]
      rfl

/-- What a wording sets before the name of the command is taken up there. -/
theorem readRoot_of_spells (hbefore : List.Forall₂ Spells outer before)
    (houter : ∀ s ∈ outer, s ∈ r.settings) (hfits : FitAll .root {} outer) (args : List String) :
    readRoot none {} (before ++ r.command.name :: args) =
      .ok (outer.foldl Given.take {}, r.command.level, args) := by
  have hwrites : List.Forall₂ Writes outer before := by
    refine forall₂_writes hbefore ?_
    rintro s hs n rfl
    exact absurd (mem_settings.1 (houter _ hs)) id
  rw [readRoot_append hwrites hfits, readRoot_name]

/-- A number that does not fit is refused. -/
theorem readCommand_of_large {n : Nat} {count : String} (h : CountText n count)
    (hn : 0x10000000000000000 ≤ n) (g : Given) (args : List String) :
    readCommand .check none g (("--max-errors=" ++ count) :: args) = .error .usage := by
  have hnone : readCount? count = none := by
    rw [readCount?_of_countText h, if_neg (Nat.not_lt.2 hn)]
  have hname : Opt.ofLong? .check "max-errors" = some .maxErrors := by decide +kernel
  have hshape : Shape.of ("--max-errors=" ++ count) = .long "max-errors" (some count) :=
    shape_of_value count (by decide +kernel) (by decide +kernel)
  rw [readCommand.eq_def]
  simp only [hshape, readLong, hname, Given.setValue, hnone]
  rfl

/-- Settings are taken up until the number that does not fit comes up. -/
theorem readCommand_refused {ss : List Setting} (h : List.Forall₂ Spells ss after)
    (hfits : FitAll level g ss) {n : Nat} (hn : .maxErrors n ∈ ss)
    (hlarge : 0x10000000000000000 ≤ n) (args : List String) :
    readCommand level none g (after ++ args) = .error .usage := by
  -- The reader takes up what fits and stops at the count, wherever it stands.
  induction h generalizing g with
  | nil => cases hn
  | @cons s arg ss after hs _ ih =>
    rw [List.cons_append]
    by_cases hsmall : ∀ m, s = .maxErrors m → m < 0x10000000000000000
    · rw [readCommand_cons (hs.writes hsmall) hfits.1]
      refine ih hfits.2 ?_
      rcases List.mem_cons.1 hn with heq | hn
      · exact absurd (hsmall n heq.symm) (Nat.not_lt.2 hlarge)
      · exact hn
    · simp only [not_forall, Nat.not_lt] at hsmall
      obtain ⟨m, rfl, hm⟩ := hsmall
      obtain ⟨rfl, -⟩ : level = .check ∧ g.maxErrors = none := hfits.1
      cases hs with
      | count hcount => exact readCommand_of_large hcount hm g _
      | other hother => exact absurd rfl (hother m)

end Placed

/-! ## Reading -/

/-- A wording is read as the request that it words. -/
theorem read_of_worded (hr : r.Expressible) (hcount : r.command.CountFits) (h : r.Worded args) :
    read {} args = .ok r := by
  cases h with
  | @mk outer inner before after hperm houter hbefore hafter =>
    have hfitsOuter := fitAll_outer hperm houter hr.config_ne
    have hfitsInner := fitAll_inner hperm hr.config_ne
    -- No count is too large, so each spelling writes its setting.
    have hwrites : List.Forall₂ Writes inner after := by
      refine forall₂_writes hafter ?_
      rintro s hs n rfl
      exact lt_of_mem_settings hcount (hperm.subset (List.mem_append_right outer hs))
    have hcommand : readCommand r.command.level none {} (after ++ "--" :: r.command.inputs) =
        .ok { inner.foldl Given.take {} with inputs := r.command.inputs } := by
      rw [readCommand_append hwrites hfitsInner, readCommand_separator hr.ne_empty,
        inputs_foldl_take, List.nil_append]
    -- At the end exactly the settings of the row are given.
    have hhas : ∀ s, (outer.foldl Given.take {}).Has s ↔ s ∈ outer := by
      intro s
      rw [has_foldl_take hfitsOuter]
      simp [Given.not_has_empty]
    refine read_eq_ok_iff.2 ⟨_, _, _, _, readRoot_of_spells hbefore houter hfitsOuter _, hcommand,
      parsed_of_has hr.inputs_ne_nil rfl (fun s => ?_) fun s hs => houter s ((hhas s).1 hs)⟩
    rw [hhas, has_withInputs hfitsInner, ← List.mem_append]
    exact hperm.mem_iff

/-- A wording whose number does not fit in 64 bits is refused. -/
theorem read_of_worded_large (hr : r.Expressible) (hcount : ¬ r.command.CountFits)
    (h : r.Worded args) : read {} args = .error .usage := by
  cases h with
  | @mk outer inner before after hperm houter hbefore hafter =>
    simp only [Command.CountFits, not_forall, Nat.not_lt] at hcount
    obtain ⟨inputs, n, hcommand, hn⟩ := hcount
    -- The limit belongs to the command, so it stands behind its name.
    have hmem : .maxErrors n ∈ inner := by
      have hboth : .maxErrors n ∈ outer ++ inner := by
        rw [hperm.mem_iff, List.mem_append, mem_settings, mem_command_settings, hcommand]
        exact .inr rfl
      refine (List.mem_append.1 hboth).resolve_left fun hmem => ?_
      exact absurd (mem_settings.1 (houter _ hmem)) id
    unfold read
    rw [readRoot_of_spells hbefore houter (fitAll_outer hperm houter hr.config_ne)]
    show (readCommand r.command.level none {} (after ++ "--" :: r.command.inputs) >>= _) = _
    rw [readCommand_refused hafter (fitAll_inner hperm hr.config_ne) hmem hn]
    rfl

/-- A request that can be written is read back as it was, if no variable is set. -/
theorem read_arguments (hconfig : r.config ≠ some "") (h : r.command.Writable) :
    read {} r.arguments = .ok r :=
  read_of_worded ⟨hconfig, h.inputs_ne_nil, h.ne_empty⟩ h.maxErrors_lt (worded_arguments r)

/-- Every request can be written, and each way to write it is read back as it was if no variable
    is set. With a number past 64 bits it breaks the rules of usage, whichever way it is written. -/
theorem read_worded (hr : r.Expressible) :
    (∃ args, r.Worded args) ∧ ∀ args, r.Worded args →
      (r.command.CountFits → read {} args = .ok r) ∧
      (¬ r.command.CountFits → read {} args = .error .usage ∧
        ∀ home configDirectory files,
          (Run.run ⟨{}, home, configDirectory⟩ files args).map (·.exit) = .ok 2) := by
  refine ⟨⟨r.arguments, worded_arguments r⟩, fun args h => ⟨fun hcount => ?_, fun hcount => ?_⟩⟩
  · exact read_of_worded hr hcount h
  · have hread := read_of_worded_large hr hcount h
    refine ⟨hread, fun home configDirectory files => ?_⟩
    unfold Run.run
    rw [hread]
    rfl

/-- A check with the largest number there is, written with a plus and zeros; its paths look like
    options. The same with a number one larger. -/
theorem read_worded_largest :
    read {} ["--config=--", "check", "--max-errors=+0018446744073709551615", "-v", "--", "-v",
        "--"] =
      .ok ⟨true, false, some "--", .check ["-v", "--"] (some 18446744073709551615)⟩ ∧
    read {} ["--config=--", "check", "--max-errors=+0018446744073709551616", "-v", "--", "-v",
        "--"] = .error .usage := by
  have hexpressible : ∀ n, (⟨true, false, some "--", .check ["-v", "--"] (some n)⟩ :
      Request).Expressible :=
    fun n => ⟨by simp, List.cons_ne_nil _ _, by simp [Command.inputs]⟩
  have hworded : ∀ n count, CountText n count →
      (⟨true, false, some "--", .check ["-v", "--"] (some n)⟩ : Request).Worded
        ["--config=" ++ "--", "check", "--max-errors=" ++ count, "-v", "--", "-v", "--"] := by
    intro n count h
    refine @Request.Worded.mk _ [.config "--"] [.maxErrors n, .verbose] [_] [_, _] ?_ ?_ ?_ ?_
    · show [Setting.config "--", .maxErrors n, .verbose].Perm
        [.verbose, .config "--", .maxErrors n]
      exact @List.perm_append_comm _ [_, _] [_]
    · simp [Request.settings]
    · exact .cons (.other (fun _ => nofun) (.config "--")) .nil
    · exact .cons (.count h) (.cons (.other (fun _ => nofun) .short) .nil)
  constructor
  · have hcount : CountText 18446744073709551615 "+0018446744073709551615" :=
      ⟨"+", by simp, 2, by decide +kernel⟩
    have hfits : Command.CountFits (.check ["-v", "--"] (some 18446744073709551615)) := by
      rintro inputs n ⟨⟩
      decide
    have hread := ((read_worded (hexpressible _)).2 _ (hworded _ _ hcount)).1 hfits
    simpa using hread
  · have hcount : CountText 18446744073709551616 "+0018446744073709551616" :=
      ⟨"+", by simp, 2, by decide +kernel⟩
    have hlarge : ¬ Command.CountFits (.check ["-v", "--"] (some 18446744073709551616)) :=
      fun h => absurd (h _ _ rfl) (by decide)
    have hread := (((read_worded (hexpressible _)).2 _ (hworded _ _ hcount)).2 hlarge).1
    simpa using hread

end Lexis.CommandLine

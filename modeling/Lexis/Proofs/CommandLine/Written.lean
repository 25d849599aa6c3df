/-
  Lexis.Proofs.CommandLine.Written

  Requests as they are written on a command line.

  A setting is what one option sets, and `Writes` says which arguments write it. Where a setting
  fits, the argument is taken up and the reading goes on behind it, so settings are taken up one
  after another; behind two hyphens all arguments are files.
-/

import Lexis.Proofs.CommandLine.Variables
import Mathlib.Data.List.Forall2

namespace Lexis.CommandLine

/-- What one option sets. -/
inductive Setting where
  | verbose
  | noColor
  | config (path : String)
  | format (name : String)
  | spans
  | maxErrors (n : Nat)
  deriving DecidableEq

/-- An argument that sets something. -/
inductive Writes : Setting → String → Prop where
  | short : Writes .verbose "-v"
  | verbose : Writes .verbose "--verbose"
  | noColor : Writes .noColor "--no-color"
  | config (path : String) : Writes (.config path) ("--config=" ++ path)
  | format (name : String) : Writes (.format name) ("--format=" ++ name)
  | spans : Writes .spans "--spans"
  | maxErrors {n : Nat} {count : String} (h : readCount? count = some n) :
      Writes (.maxErrors n) ("--max-errors=" ++ count)

/-- What is given with one setting more. -/
def Given.take (g : Given) : Setting → Given
  | .verbose => { g with verbose := true }
  | .noColor => { g with noColor := true }
  | .config path => { g with config := some path }
  | .format name => { g with format := some name }
  | .spans => { g with spans := true }
  | .maxErrors n => { g with maxErrors := some n }

/-- A setting may be given at a level, and has not been given there yet. -/
def Setting.Fits (level : Level) (g : Given) : Setting → Prop
  | verbose => g.verbose = false
  | noColor => g.noColor = false
  | config path => g.config = none ∧ path ≠ ""
  | format _ => level = .tokens ∧ g.format = none
  | spans => level = .tokens ∧ g.spans = false
  | maxErrors _ => level = .check ∧ g.maxErrors = none

/-! ## One argument -/

/-- An option with its value behind the sign `=`. -/
theorem shape_of_value {option name : String} (value : String)
    (hoption : option = "--" ++ name ++ "=") (hname : '=' ∉ name.toList) :
    Shape.of (option ++ value) = .long name (some value) := by
  have hlist : (option ++ value).toList =
      '-' :: '-' :: (name.toList ++ '=' :: value.toList) := by
    rw [hoption]
    simp
  have htake : (name.toList ++ '=' :: value.toList).takeWhile (· ≠ '=') = name.toList := by
    rw [List.takeWhile_append_of_pos, List.takeWhile_cons_of_neg (by simp), List.append_nil]
    intro c hc
    simpa using fun h : c = '=' => hname (h ▸ hc)
  have hdrop :
      (name.toList ++ '=' :: value.toList).dropWhile (· ≠ '=') = '=' :: value.toList := by
    rw [List.dropWhile_append_of_pos, List.dropWhile_cons_of_neg (by simp)]
    intro c hc
    simpa using fun h : c = '=' => hname (h ▸ hc)
  unfold Shape.of
  rw [hlist]
  -- The sign alone makes more of the argument than two hyphens.
  cases hcs : name.toList ++ '=' :: value.toList with
  | nil => simp at hcs
  | cons c cs =>
    rw [hcs] at htake hdrop
    simp only [htake, hdrop, String.ofList_toList]

/-- An option without a value, by its name. -/
theorem readLong_flag {level : Level} {g g' : Given} {name : String} {opt : Opt}
    (hname : Opt.ofLong? level name = some opt) (hopt : opt.takesValue = false)
    (hflag : g.setFlag level opt = .ok g') : readLong level g name none = .ok (g', none) := by
  unfold readLong
  rw [hname]
  simp only [hopt, hflag]
  rfl

/-- An option with its value, by its name. -/
theorem readLong_value {level : Level} {g g' : Given} {name value : String} {opt : Opt}
    (hname : Opt.ofLong? level name = some opt) (hvalue : g.setValue opt value = .ok g') :
    readLong level g name (some value) = .ok (g', none) := by
  unfold readLong
  rw [hname]
  simp only [hvalue]
  rfl

theorem setFlag_verbose {level : Level} {g : Given} (h : g.verbose = false) :
    g.setFlag level .verbose = .ok (g.take .verbose) := by
  simp [Given.setFlag, h, Given.take]

/-- The argument is read as an option that takes up the setting, and nothing is still to come. -/
theorem Writes.read {s : Setting} {arg : String} {level : Level} {g : Given} (h : Writes s arg)
    (hfits : s.Fits level g) :
    (∃ name value, Shape.of arg = .long name value ∧
      readLong level g name value = .ok (g.take s, none)) ∨
    ∃ letters, Shape.of arg = .short letters ∧
      readShort level g letters = .ok (g.take s, none) := by
  -- One case for each spelling: the name is known where the setting fits, and its option is free.
  cases h with
  | short =>
    have hletter : Opt.ofShort? level 'v' = some .verbose := by cases level <;> rfl
    refine .inr ⟨['v'], by decide +kernel, ?_⟩
    simp [readShort, hletter, Opt.takesValue, setFlag_verbose hfits]
  | verbose =>
    have hname : Opt.ofLong? level "verbose" = some .verbose := by cases level <;> decide +kernel
    exact .inl ⟨"verbose", none, by decide +kernel,
      readLong_flag hname rfl (setFlag_verbose hfits)⟩
  | noColor =>
    have hname : Opt.ofLong? level "no-color" = some .noColor := by cases level <;> decide +kernel
    have hnone : g.noColor = false := hfits
    exact .inl ⟨"no-color", none, by decide +kernel,
      readLong_flag hname rfl (by simp [Given.setFlag, hnone, Given.take])⟩
  | config path =>
    have hname : Opt.ofLong? level "config" = some .config := by cases level <;> decide +kernel
    obtain ⟨hnone, hpath⟩ : g.config = none ∧ path ≠ "" := hfits
    exact .inl ⟨"config", some path, shape_of_value path (by decide +kernel) (by decide +kernel),
      readLong_value hname (by simp [Given.setValue, hnone, hpath, Given.take])⟩
  | format name =>
    obtain ⟨rfl, hnone⟩ : level = .tokens ∧ g.format = none := hfits
    have hname : Opt.ofLong? .tokens "format" = some .format := by decide +kernel
    exact .inl ⟨"format", some name, shape_of_value name (by decide +kernel) (by decide +kernel),
      readLong_value hname (by simp [Given.setValue, hnone, Given.take])⟩
  | spans =>
    obtain ⟨rfl, hnone⟩ : level = .tokens ∧ g.spans = false := hfits
    have hname : Opt.ofLong? .tokens "spans" = some .spans := by decide +kernel
    exact .inl ⟨"spans", none, by decide +kernel,
      readLong_flag hname rfl (by simp [Given.setFlag, hnone, Given.take])⟩
  | @maxErrors n count hcount =>
    obtain ⟨rfl, hnone⟩ : level = .check ∧ g.maxErrors = none := hfits
    have hname : Opt.ofLong? .check "max-errors" = some .maxErrors := by decide +kernel
    exact .inl ⟨"max-errors", some count,
      shape_of_value count (by decide +kernel) (by decide +kernel),
      readLong_value hname (by simp [Given.setValue, hcount, hnone, Given.take])⟩

/-- One argument in front of the command is taken up as the setting it writes. -/
theorem readRoot_cons {s : Setting} {arg : String} {g : Given} (h : Writes s arg)
    (hfits : s.Fits .root g) (args : List String) :
    readRoot none g (arg :: args) = readRoot none (g.take s) args := by
  rw [readRoot.eq_def]
  rcases h.read hfits with ⟨name, value, hshape, hread⟩ | ⟨letters, hshape, hread⟩
  · simp only [hshape, hread]
    rfl
  · simp only [hshape, hread]
    rfl

/-- One argument behind the command is taken up as the setting it writes. -/
theorem readCommand_cons {s : Setting} {arg : String} {level : Level} {g : Given} (h : Writes s arg)
    (hfits : s.Fits level g) (args : List String) :
    readCommand level none g (arg :: args) = readCommand level none (g.take s) args := by
  rw [readCommand.eq_def]
  rcases h.read hfits with ⟨name, value, hshape, hread⟩ | ⟨letters, hshape, hread⟩
  · simp only [hshape, hread]
    rfl
  · simp only [hshape, hread]
    rfl

/-! ## Several arguments -/

/-- Settings fit one after another. -/
def FitAll (level : Level) : Given → List Setting → Prop
  | _, [] => True
  | g, s :: ss => s.Fits level g ∧ FitAll level (g.take s) ss

/-- A row of arguments in front of the command is taken up, setting by setting. -/
theorem readRoot_append {ss : List Setting} {written : List String} {g : Given}
    (h : List.Forall₂ Writes ss written) (hfits : FitAll .root g ss) (args : List String) :
    readRoot none g (written ++ args) = readRoot none (ss.foldl Given.take g) args := by
  induction h generalizing g with
  | nil => rfl
  | cons hs _ ih => rw [List.cons_append, readRoot_cons hs hfits.1, ih hfits.2, List.foldl_cons]

theorem readCommand_append {ss : List Setting} {written : List String} {level : Level} {g : Given}
    (h : List.Forall₂ Writes ss written) (hfits : FitAll level g ss) (args : List String) :
    readCommand level none g (written ++ args) =
      readCommand level none (ss.foldl Given.take g) args := by
  induction h generalizing g with
  | nil => rfl
  | cons hs _ ih => rw [List.cons_append, readCommand_cons hs hfits.1, ih hfits.2, List.foldl_cons]

theorem inputs_foldl_take (g : Given) (ss : List Setting) :
    (ss.foldl Given.take g).inputs = g.inputs := by
  induction ss generalizing g with
  | nil => rfl
  | cons s ss ih =>
    rw [List.foldl_cons, ih]
    cases s <;> rfl

/-- The inputs behind the mark that ends the options are taken up in their order. -/
theorem foldlM_addInput {g : Given} {paths : List String} (h : ∀ path ∈ paths, path ≠ "") :
    paths.foldlM Given.addInput g = .ok { g with inputs := g.inputs ++ paths } := by
  induction paths generalizing g with
  | nil =>
    rw [List.append_nil]
    rfl
  | cons path paths ih =>
    obtain ⟨hpath, hpaths⟩ := List.forall_mem_cons.1 h
    rw [List.foldlM_cons, Given.addInput, if_neg hpath]
    show paths.foldlM Given.addInput { g with inputs := g.inputs ++ [path] } = _
    rw [ih hpaths, List.append_assoc]
    rfl

/-- Behind two hyphens stand files, whatever they look like. -/
theorem readCommand_separator {level : Level} {g : Given} {paths : List String}
    (h : ∀ path ∈ paths, path ≠ "") :
    readCommand level none g ("--" :: paths) = .ok { g with inputs := g.inputs ++ paths } := by
  have hshape : Shape.of "--" = .separator := by decide +kernel
  rw [readCommand.eq_def]
  simp only [hshape]
  exact foldlM_addInput h

/-! ## Whole requests -/

/-- The name of a command. -/
def Command.name : Command → String
  | tokens .. => "tokens"
  | check .. => "check"

/-- Where the options of a command stand. -/
def Command.level : Command → Level
  | tokens .. => .tokens
  | check .. => .check

/-- What the options of a command set. -/
def Command.settings : Command → List Setting
  | tokens _ format spans => (format.map .format).toList ++ if spans then [.spans] else []
  | check _ maxErrors => (maxErrors.map .maxErrors).toList

/-- What the options that any command takes set. -/
def Request.settings (r : Request) : List Setting :=
  (if r.verbose then [.verbose] else []) ++ (if r.noColor then [.noColor] else []) ++
    (r.config.map .config).toList

/-- One way to write a setting. -/
def Setting.argument : Setting → String
  | verbose => "-v"
  | noColor => "--no-color"
  | config path => "--config=" ++ path
  | format name => "--format=" ++ name
  | spans => "--spans"
  | maxErrors n => "--max-errors=" ++ toString n

/-- One way to write a request: options before the command, its own options, and its files behind
    two hyphens. -/
def Request.arguments (r : Request) : List String :=
  r.settings.map Setting.argument ++
    r.command.name :: (r.command.settings.map Setting.argument ++ "--" :: r.command.inputs)

/-- The name of a command ends what belongs to the root. -/
theorem readRoot_name (g : Given) (c : Command) (args : List String) :
    readRoot none g (c.name :: args) = .ok (g, c.level, args) := by
  have htokens : Shape.of "tokens" = .plain := by decide +kernel
  have hcheck : Shape.of "check" = .plain := by decide +kernel
  rw [readRoot.eq_def]
  cases c with
  | tokens inputs format spans =>
    simp only [Command.name, htokens]
    rfl
  | check inputs maxErrors =>
    simp only [Command.name, hcheck]
    rfl

end Lexis.CommandLine

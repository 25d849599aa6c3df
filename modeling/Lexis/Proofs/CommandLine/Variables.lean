/-
  Lexis.Proofs.CommandLine.Variables

  What a request is put together from.

  The arguments alone make a request; variables add to it only where they name what an option would
  set, and where an option stands its variable does not matter. What is taken up from the arguments
  is checked there: paths are not empty, and a number fits in 64 bits.
-/

import Lexis.CommandLine.Reader
import Mathlib.Data.List.Basic

namespace Lexis.CommandLine

variable {vars : Variables} {args : List String} {r : Request}

/-! ## The parts of a request -/

/-- Two stages of reading succeed exactly if each of them does. -/
theorem Refusal.bind_eq_ok {α β : Type} {x : Except Refusal α} {f : α → Except Refusal β}
    {b : β} : x >>= f = .ok b ↔ ∃ a, x = .ok a ∧ f a = .ok b := by
  cases x <;> simp [bind, Except.bind]

/-- A request and what is given at its two levels. -/
structure Parsed (vars : Variables) (root : Given) (level : Level) (given : Given) (r : Request) :
    Prop where
  inputs_ne_nil : given.inputs ≠ []
  verbose : mergeFlag root.verbose given.verbose vars.verbose = .ok r.verbose
  config : mergePath root.config given.config vars.config = .ok r.config
  noColor : mergeFlag root.noColor given.noColor vars.noColor = .ok r.noColor
  command_eq : r.command = if level = .check then .check given.inputs given.maxErrors
    else .tokens given.inputs given.format given.spans

/-- A request is read just where both levels are read and go together with the variables. -/
theorem read_eq_ok_iff :
    read vars args = .ok r ↔ ∃ root level rest given,
      readRoot none {} args = .ok (root, level, rest) ∧
      readCommand level none {} rest = .ok given ∧ Parsed vars root level given r := by
  constructor
  · intro h
    unfold read at h
    obtain ⟨⟨root, level, rest⟩, hroot, h⟩ := Refusal.bind_eq_ok.1 h
    obtain ⟨given, hgiven, h⟩ := Refusal.bind_eq_ok.1 h
    refine ⟨root, level, rest, given, hroot, hgiven, ?_⟩
    by_cases hempty : given.inputs.isEmpty = true
    · simp only [if_pos hempty] at h
      cases h
    · simp only [if_neg hempty] at h
      obtain ⟨verbose, hverbose, h⟩ := Refusal.bind_eq_ok.1 h
      obtain ⟨config, hconfig, h⟩ := Refusal.bind_eq_ok.1 h
      obtain ⟨noColor, hnoColor, h⟩ := Refusal.bind_eq_ok.1 h
      obtain rfl := Except.ok.inj h
      exact ⟨by rwa [List.isEmpty_iff] at hempty, hverbose, hconfig, hnoColor, rfl⟩
  · rintro ⟨root, level, rest, given, hroot, hgiven, h⟩
    have hempty : ¬ given.inputs.isEmpty = true := by
      rw [List.isEmpty_iff]
      exact h.inputs_ne_nil
    unfold read
    rw [hroot]
    -- The stages in the order in which the program goes through them.
    show (readCommand level none {} rest >>= _) = _
    rw [hgiven]
    show (if given.inputs.isEmpty = true then _ else _) = _
    rw [if_neg hempty, h.verbose]
    show (mergePath root.config given.config vars.config >>= _) = _
    rw [h.config]
    show (mergeFlag root.noColor given.noColor vars.noColor >>= _) = _
    rw [h.noColor]
    show Except.ok (Request.mk r.verbose r.noColor r.config _) = _
    rw [← h.command_eq]

/-- A command line without files is refused. -/
theorem inputs_ne_nil_of_read (h : read vars args = .ok r) : r.command.inputs ≠ [] := by
  obtain ⟨root, level, rest, given, -, -, hparsed⟩ := read_eq_ok_iff.1 h
  have hinputs : (if level = .check then Command.check given.inputs given.maxErrors
      else .tokens given.inputs given.format given.spans).inputs = given.inputs := by
    split <;> rfl
  rw [hparsed.command_eq, hinputs]
  exact hparsed.inputs_ne_nil

/-! ## Variables -/

/-- A flag is set by either option or by its variable. -/
theorem eq_of_mergeFlag {root command flag : Bool} {fallback : Option String}
    (h : mergeFlag root command fallback = .ok flag) :
    flag = (root || command || fallback = some "true") := by
  unfold mergeFlag at h
  -- Given on the command line, the flag is set whatever the variable says.
  split at h
  next hboth =>
    cases h
    rw [Bool.and_eq_true] at hboth
    rw [hboth.1, Bool.true_or, Bool.true_or]
  next =>
    cases fallback with
    | none =>
      cases h
      simp
    | some value =>
      simp only at h
      split at h
      next htrue =>
        cases h
        rw [htrue]
        simp
      next htrue =>
        -- A variable is read as a truth value; anything else is a usage error.
        split at h
        · cases h
          simp [htrue]
        · cases h

/-- Without a variable a flag is set where the command line sets it, before or behind the
    command. -/
theorem mergeFlag_none (root command : Bool) :
    mergeFlag root command none = .ok (root || command) := by
  unfold mergeFlag
  split
  next hboth =>
    rw [Bool.and_eq_true] at hboth
    rw [hboth.1, Bool.true_or]
  next => rfl

/-- The option behind the name of the command counts, then the one before it, then the variable. -/
theorem eq_of_mergePath {root command path fallback : Option String}
    (h : mergePath root command fallback = .ok path) :
    path = (command <|> root <|> fallback) := by
  unfold mergePath at h
  -- Given on the command line, a path goes before the variable's.
  split at h
  next hboth =>
    cases h
    cases command with
    | none => simp at hboth
    | some c => rfl
  next =>
    split at h
    · cases h
    · cases h
      rfl

theorem mergePath_none (root command : Option String) :
    mergePath root command none = .ok (command <|> root) := by
  cases root <;> cases command <;> rfl

/-- A request is what the arguments alone ask for, with the variables in place of options. -/
theorem exists_read_of_read (h : read vars args = .ok r) :
    ∃ asked, read {} args = .ok asked ∧ r =
      { verbose := asked.verbose || vars.verbose = some "true"
        noColor := asked.noColor || vars.noColor = some "true"
        config := asked.config <|> vars.config
        command := asked.command } := by
  obtain ⟨root, level, rest, given, hroot, hgiven, hparsed⟩ := read_eq_ok_iff.1 h
  -- The same arguments, read without any variables.
  let asked : Request := ⟨root.verbose || given.verbose, root.noColor || given.noColor,
    given.config <|> root.config, r.command⟩
  have hasked : Parsed {} root level given asked :=
    ⟨hparsed.inputs_ne_nil, mergeFlag_none .., mergePath_none .., mergeFlag_none ..,
      hparsed.command_eq⟩
  refine ⟨asked, read_eq_ok_iff.2 ⟨root, level, rest, given, hroot, hgiven, hasked⟩, ?_⟩
  obtain ⟨verbose, noColor, config, command⟩ := r
  have hconfig : config = ((given.config <|> root.config) <|> vars.config) :=
    (eq_of_mergePath hparsed.config).trans (by cases given.config <;> rfl)
  rw [Request.mk.injEq]
  exact ⟨eq_of_mergeFlag hparsed.verbose, eq_of_mergeFlag hparsed.noColor, hconfig, rfl⟩

/-! ## What is taken up -/

/-- Files have names, and a number fits in 64 bits. -/
structure Given.Sound (g : Given) : Prop where
  ne_empty : ∀ path ∈ g.inputs, path ≠ ""
  maxErrors_lt : ∀ n, g.maxErrors = some n → n < 0x10000000000000000

namespace Given.Sound

variable {g g' : Given} {level : Level} {opt : Opt}

theorem empty : ({} : Given).Sound :=
  ⟨List.forall_mem_nil _, fun _ h => nomatch h⟩

theorem setFlag (hg : g.Sound) (h : g.setFlag level opt = .ok g') : g'.Sound := by
  cases opt with
  | verbose | noColor | spans =>
    simp only [Given.setFlag] at h
    split at h
    · cases h
    · cases h
      exact ⟨hg.ne_empty, hg.maxErrors_lt⟩
  | version | help | config | format | maxErrors => cases h

/-- A count that is read fits into 64 bits. -/
theorem lt_of_readCount? {s : String} {n : Nat} (h : readCount? s = some n) :
    n < 0x10000000000000000 := by
  simp only [readCount?] at h
  obtain ⟨hall, hn⟩ := Option.ite_none_right_eq_some.1 h
  obtain rfl := Option.some.inj hn
  rw [Bool.and_eq_true, decide_eq_true_eq] at hall
  exact hall.2

theorem setValue {value : String} (hg : g.Sound) (h : g.setValue opt value = .ok g') :
    g'.Sound := by
  -- Each option checks its own value; flags take none.
  cases opt with
  | config | format =>
    simp only [Given.setValue] at h
    split at h
    · cases h
    · cases h
      exact ⟨hg.ne_empty, hg.maxErrors_lt⟩
  | maxErrors =>
    simp only [Given.setValue] at h
    split at h
    next n hn =>
      split at h
      · cases h
      · cases h
        refine ⟨hg.ne_empty, ?_⟩
        rintro _ ⟨⟩
        exact lt_of_readCount? hn
    next => cases h
  | verbose | noColor | spans | version | help => cases h

/-- Taking up an input keeps what is given sound: an empty path is refused. -/
theorem addInput {path : String} (hg : g.Sound) (h : g.addInput path = .ok g') : g'.Sound := by
  unfold Given.addInput at h
  split at h
  · cases h
  next hne =>
    cases h
    refine ⟨fun p hp => ?_, hg.maxErrors_lt⟩
    rcases List.mem_append.1 hp with hp | hp
    · exact hg.ne_empty p hp
    · rw [List.mem_singleton.1 hp]
      exact hne

theorem of_map {x : Except Refusal Given} {pending pending' : Option Opt}
    (h : x.map (·, pending) = .ok (g', pending')) : x = .ok g' := by
  cases x with
  | error refusal => cases h
  | ok g =>
    cases h
    rfl

/-- A cluster of letters keeps what is given sound, by induction on the letters. -/
theorem readShort {letters : List Char} {pending : Option Opt} (hg : g.Sound)
    (h : readShort level g letters = .ok (g', pending)) : g'.Sound := by
  induction letters generalizing g with
  | nil =>
    cases h
    exact hg
  | cons c cs ih =>
    rw [CommandLine.readShort.eq_def] at h
    simp only at h
    -- A letter that takes a value takes the letters behind it, or the next argument.
    split at h
    · cases h
    · split at h
      · split at h
        · cases h
          exact hg
        · exact hg.setValue (of_map h)
        · exact hg.setValue (of_map h)
      · split at h
        · cases h
        next hflag => exact ih (hg.setFlag hflag) h

/-- A long option, with its value behind the sign or without, keeps what is given sound. -/
theorem readLong {name : String} {value : Option String} {pending : Option Opt} (hg : g.Sound)
    (h : readLong level g name value = .ok (g', pending)) : g'.Sound := by
  unfold CommandLine.readLong at h
  split at h
  · cases h
  · exact hg.setValue (of_map h)
  · split at h
    · cases h
      exact hg
    · exact hg.setFlag (of_map h)

/-- So do all the inputs behind the mark that ends the options. -/
theorem foldlM_addInput {paths : List String} (hg : g.Sound)
    (h : paths.foldlM Given.addInput g = .ok g') : g'.Sound := by
  induction paths generalizing g with
  | nil =>
    cases h
    exact hg
  | cons path paths ih =>
    rw [List.foldlM_cons] at h
    obtain ⟨g₁, h₁, h⟩ := Refusal.bind_eq_ok.1 h
    exact ih (hg.addInput h₁) h

/-- Every argument keeps what is given sound. -/
theorem readCommand {pending : Option Opt} {args : List String} (hg : g.Sound)
    (h : readCommand level pending g args = .ok g') : g'.Sound := by
  induction args generalizing g pending with
  | nil =>
    rw [CommandLine.readCommand] at h
    split at h
    · cases h
    · cases h
      exact hg
  | cons arg args ih =>
    rw [CommandLine.readCommand.eq_def] at h
    simp only at h
    -- What an argument may be: a value, the mark, a long option, short ones or an input.
    split at h
    · obtain ⟨g₁, h₁, h⟩ := Refusal.bind_eq_ok.1 h
      exact ih (hg.setValue h₁) h
    · cases h
    · exact hg.foldlM_addInput h
    · obtain ⟨⟨g₁, pending₁⟩, h₁, h⟩ := Refusal.bind_eq_ok.1 h
      exact ih (hg.readLong h₁) h
    · obtain ⟨⟨g₁, pending₁⟩, h₁, h⟩ := Refusal.bind_eq_ok.1 h
      exact ih (hg.readShort h₁) h
    · obtain ⟨g₁, h₁, h⟩ := Refusal.bind_eq_ok.1 h
      exact ih (hg.addInput h₁) h

end Given.Sound

/-- What is behind the name of a command can be written on a command line. -/
structure Command.Writable (c : Command) : Prop where
  inputs_ne_nil : c.inputs ≠ []
  ne_empty : ∀ path ∈ c.inputs, path ≠ ""
  maxErrors_lt : ∀ inputs n, c = .check inputs (some n) → n < 0x10000000000000000

/-- Whatever is read can be written. -/
theorem writable_of_read (h : read vars args = .ok r) : r.command.Writable := by
  obtain ⟨root, level, rest, given, -, hgiven, hparsed⟩ := read_eq_ok_iff.1 h
  have hsound := Given.Sound.empty.readCommand hgiven
  rw [hparsed.command_eq]
  by_cases hlevel : level = .check
  · rw [if_pos hlevel]
    refine ⟨hparsed.inputs_ne_nil, hsound.ne_empty, ?_⟩
    intro inputs n hc
    exact hsound.maxErrors_lt n (Command.check.inj hc).2
  · rw [if_neg hlevel]
    exact ⟨hparsed.inputs_ne_nil, hsound.ne_empty, fun _ _ hc => nomatch hc⟩

end Lexis.CommandLine

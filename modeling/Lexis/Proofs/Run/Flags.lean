/-
  Lexis.Proofs.Run.Flags

  A run with every setting given by an option.

  Variables and a configuration say nothing that options cannot say. A request is put together from
  options and variables, and a command takes what it is not told from the settings; said by options
  alone, with an empty configuration, all of it is read back, and the run is the same. Numbers of a
  configuration have a sign, so they fit where an option takes one.
-/

import Lexis.Proofs.CommandLine.Wordings
import Lexis.Proofs.Run.Configuration
import Lexis.Proofs.Run.Request
import Lexis.Proofs.Toml.Range

namespace Lexis

/-! ## Settings in range -/

namespace Settings

open Lexis.Toml (Value)

/-- A section sets nothing that it does not hold. -/
theorem inRange_of_section? {names : List String} {v? : Option Value}
    {get : String → Option Value} {name : String} {w : Value} (hv : ∀ v, v? = some v → v.InRange)
    (h : section? names v? = some get) (hw : get name = some w) : w.InRange := by
  -- What a section is read from: a table, or an array taken in order.
  cases v? with
  | none =>
    cases h
    cases hw
  | some v =>
    cases hv v rfl with
    | table ht =>
      cases h
      exact ht.get? hw
    | array hitems =>
      cases h
      exact hitems w (List.mem_of_getElem? hw)
    | tables hearlier hlast =>
      cases h
      obtain ⟨t, ht, rfl⟩ := Option.map_eq_some_iff.1 hw
      refine .table ?_
      rcases List.mem_append.1 (List.mem_of_getElem? ht) with ht | ht
      · exact hearlier t ht
      · rw [List.mem_singleton.1 ht]
        exact hlast
    | dateTime =>
      cases h
      cases hw
    | string | integer | float | boolean => cases h

theorem lt_of_natural? {v? : Option Value} {n : Nat} (hv : ∀ v, v? = some v → v.InRange)
    (h : natural? v? = some (some n)) : n < 0x8000000000000000 := by
  cases v? with
  | none => cases h
  | some v =>
    -- Only an integer is read as a number, and only one that is not negative.
    cases hv v rfl with
    | @integer i hi =>
      cases i with
      | ofNat m =>
        cases h
        exact Int.ofNat_lt.1 hi.2
      | negSucc m => cases h
    | string | float | boolean | dateTime | array | table | tables => cases h

variable {s : Settings} {n : Nat}

/-- A limit that a configuration sets fits into 63 bits, as every integer of such a file. -/
theorem lt_of_parse {cs : List Char} (h : parse cs = .ok s) (hn : s.maxErrors = some n) :
    n < 0x8000000000000000 := by
  unfold parse at h
  split at h
  next settings hsettings =>
    cases h
    obtain ⟨root, hroot, htable⟩ := Option.bind_eq_some_iff.1 hsettings
    have hrange := Toml.inRange_of_parse? hroot
    unfold ofTable? at htable
    -- The settings are read one by one; the limit is the last of them.
    obtain ⟨verbose, -, htable⟩ := Option.bind_eq_some_iff.1 htable
    obtain ⟨output, -, htable⟩ := Option.bind_eq_some_iff.1 htable
    obtain ⟨format, -, htable⟩ := Option.bind_eq_some_iff.1 htable
    obtain ⟨showSpans, -, htable⟩ := Option.bind_eq_some_iff.1 htable
    obtain ⟨check, hcheck, htable⟩ := Option.bind_eq_some_iff.1 htable
    obtain ⟨maxErrors, hmax, htable⟩ := Option.bind_eq_some_iff.1 htable
    obtain rfl := Option.some.inj htable
    obtain rfl : maxErrors = some n := hn
    exact lt_of_natural? (fun w hw => inRange_of_section? (fun v hv => hrange.get? hv) hcheck hw)
      hmax
  next => cases h

/-- An empty configuration leaves all at the defaults. -/
theorem load_of_empty {files : Files} {path : String} (h : files path = .file []) :
    load files path = .ok {} := by
  have hread : files.readConfiguration path = .ok [] := by
    rw [Files.readConfiguration, h]
    rfl
  have hparse : parse [] = .ok {} := by decide +kernel
  rw [load, hread]
  exact hparse

end Settings

namespace Run

open CommandLine

variable {env : Environment} {files : Files} {settings : Settings}

/-- A limit that is configured leaves room below what an option takes. -/
theorem Configured.maxErrors_lt {config : Option String} {n : Nat}
    (h : Configured env files config settings) (hn : settings.maxErrors = some n) :
    n < 0x8000000000000000 := by
  cases h with
  | defaults => cases hn
  | loaded hfound hfile hdecode hparse => exact Settings.lt_of_parse hparse hn

/-! ## Everything by options -/

/-- A command that is told what it would take from settings. -/
def settledCommand (settings : Settings) : Command → Command
  | .tokens inputs format spans =>
    .tokens inputs (some (format.getD settings.format)) (spans || settings.showSpans)
  | .check inputs maxErrors => .check inputs (maxErrors <|> settings.maxErrors)

/-- What options ask for, and what variables and settings add, asked for by options alone. The
    configuration that is named is another one. -/
def settled (asked : Request) (vars : Variables) (settings : Settings) (path : String) :
    Request where
  verbose := asked.verbose || vars.verbose = some "true" || settings.verbose
  noColor := asked.noColor || vars.noColor = some "true"
  config := some path
  command := settledCommand settings asked.command

theorem inputs_settledCommand (settings : Settings) (c : Command) :
    (settledCommand settings c).inputs = c.inputs := by
  cases c <;> rfl

/-- A command that can be written can be with what settings add. -/
theorem writable_settledCommand {c : Command} (h : c.Writable)
    (hsettings : ∀ n, settings.maxErrors = some n → n < 0x8000000000000000) :
    (settledCommand settings c).Writable := by
  refine ⟨by rw [inputs_settledCommand]; exact h.inputs_ne_nil,
    by rw [inputs_settledCommand]; exact h.ne_empty, ?_⟩
  intro inputs n hc
  cases c with
  | tokens => cases hc
  | check paths maxErrors =>
    obtain ⟨-, hmax⟩ := Command.check.inj hc
    cases maxErrors with
    | some m =>
      obtain rfl := Option.some.inj hmax
      exact h.maxErrors_lt paths m rfl
    -- The sign of a configured number leaves room below what an option takes.
    | none => exact Nat.lt_trans (hsettings n hmax) (by decide)

/-- A command that is told all does the same without settings. -/
theorem execute_settledCommand (files : Files) {c : Command}
    (h : ∀ inputs spans, c = .tokens inputs none spans →
      ∃ format, Format.ofName? settings.format = some format) :
    execute files {} (settledCommand settings c) = execute files settings c := by
  cases c with
  | tokens inputs asked spans =>
    -- A configured name that is no format would be reported in another way than one asked for.
    have hresolve : Format.resolve (some (asked.getD settings.format)) "text" =
        Format.resolve asked settings.format := by
      cases asked with
      | some name => rfl
      | none =>
        obtain ⟨format, hformat⟩ := h inputs spans rfl
        rw [Option.getD_none, Format.resolve, Format.resolve, hformat]
        rfl
    have hspans : ((spans || settings.showSpans) || false) = (spans || settings.showSpans) :=
      Bool.or_false _
    show execute files {} (.tokens inputs _ _) = _
    rw [execute, execute, hresolve, hspans]
  | check inputs maxErrors =>
    have hmax : ((maxErrors <|> settings.maxErrors) <|> none) =
        (maxErrors <|> settings.maxErrors) := by
      cases maxErrors <;> cases settings.maxErrors <;> rfl
    show execute files {} (.check inputs _) = _
    rw [execute_check, execute_check]
    show checkCommand files ((maxErrors <|> settings.maxErrors) <|> none) inputs >>= _ = _
    rw [hmax]

/-- Whatever options, variables and a configuration ask of a run, options ask alone: all of it can
    be written on a command line, with an empty configuration and no variable set, and any command
    line that is read so makes the same run. The configuration is the one that an option names, or
    else the variable, or else the first that exists of that in the directory of the run, that at
    home and that in the directory of the system. -/
theorem run_settled {args : List String} {r : Request} (hread : read env.vars args = .ok r)
    (hload : Configured env files r.config settings)
    (hformat : ∀ inputs spans, r.command = .tokens inputs none spans →
      ∃ format, Format.ofName? settings.format = some format) :
    ∃ asked, read {} args = .ok asked ∧ r.config = (asked.config <|> env.vars.config) ∧
      ∀ path, path ≠ "" →
        read {} (settled asked env.vars settings path).arguments =
          .ok (settled asked env.vars settings path) ∧
        ∀ (env' : Environment) (files' : Files) (args' : List String), env'.vars = {} →
          files' path = .file [] → (∀ input ∈ r.command.inputs, files' input = files input) →
          read {} args' = .ok (settled asked env.vars settings path) →
          run env' files' args' = run env files args := by
  obtain ⟨asked, hasked, rfl⟩ := exists_read_of_read hread
  refine ⟨asked, hasked, rfl, fun path hpath => ⟨?_, ?_⟩⟩
  · exact read_arguments (fun h => hpath (Option.some.inj h))
      (writable_settledCommand (writable_of_read hasked) fun n hn => hload.maxErrors_lt hn)
  · intro env' files' args' hvars hempty hinputs hread'
    -- The named configuration is the only one that is looked at, and it sets nothing.
    have hload' : loadSettings env' files' (some path) = .ok {} := Settings.load_of_empty hempty
    have hsources : ∀ input ∈ (settledCommand settings asked.command).inputs,
        files'.readSource input = files.readSource input := by
      intro input hinput
      rw [inputs_settledCommand] at hinput
      simp only [Files.readSource, hinputs input hinput]
    have hexecute : execute files' {} (settledCommand settings asked.command) =
        execute files settings asked.command := by
      rw [execute_congr hsources]
      exact execute_settledCommand files hformat
    have hverbose : ((settled asked env.vars settings path).verbose || ({} : Settings).verbose) =
        (asked.verbose || env.vars.verbose = some "true" || settings.verbose) := Bool.or_false _
    have hsettled : runRequest env' files' (settled asked env.vars settings path) =
        ended (asked.verbose || env.vars.verbose = some "true" || settings.verbose)
          (asked.noColor || env.vars.noColor = some "true")
          (execute files settings asked.command) := by
      rw [runRequest_eq_ended hload', hverbose, ← hexecute]
      rfl
    rw [run_eq hread, run_eq (hvars ▸ hread'), hsettled,
      runRequest_eq_ended (loadSettings_eq_ok_iff.2 hload)]

/-- A configuration at home that asks for JSON with spans, and one in the directory of the system
    that asks for a format that does not exist. -/
def configuredFiles : Files
  | "a" => .file (Utf8.encode "if \"".toList)
  | "/h/.config/quillt/quillt.toml" =>
    .file (Utf8.encode "[output]\nformat = \"json\"\nshow_spans = true".toList)
  | "/s/quillt/quillt.toml" =>
    .file (Utf8.encode "[output]\nformat = \"xml\"\n[check]\nmax_errors = 1".toList)
  | "e" => .file []
  | _ => .missing

/-- An environment with both directories, in which a variable asks for details. -/
def configuredEnvironment : Environment :=
  ⟨{ verbose := some "true" }, some "/h", some "/s/"⟩

/-- The configuration at home is found, and that of the system is not looked at. -/
theorem configured_home : Configured configuredEnvironment configuredFiles none
    ⟨false, "json", true, none⟩ := by
  have hstem : Stem "/h" "/h/" := .slash (c := 'h') (by decide +kernel) (by decide)
  have hpath : AtHome configuredEnvironment "/h/.config/quillt/quillt.toml" :=
    ⟨"/h", "/h/", rfl, hstem, by decide +kernel⟩
  have hparse : Settings.parse "[output]\nformat = \"json\"\nshow_spans = true".toList =
      .ok ⟨false, "json", true, none⟩ := by decide +kernel
  exact .loaded (.home (by decide +kernel) hpath (by decide +kernel)) rfl
    (by decide +kernel) hparse

/-- A dump whose settings come from a variable and from the configuration at home, and the same with
    options only. -/
theorem run_settled_home :
    run {} configuredFiles ["-v", "--config=e", "tokens", "--format=json", "--spans", "--", "a"] =
      run configuredEnvironment configuredFiles ["tokens", "a"] ∧
    (run configuredEnvironment configuredFiles ["tokens", "a"]).map
      (fun o => (o.exit, o.output == "", o.events.length)) = .ok (0, false, 3) := by
  have hread : read { verbose := some "true" } ["tokens", "a"] =
      .ok ⟨true, false, none, .tokens ["a"] none false⟩ := by decide +kernel
  have hplain : read {} ["tokens", "a"] = .ok ⟨false, false, none, .tokens ["a"] none false⟩ := by
    decide +kernel
  obtain ⟨asked, hasked, -, hsame⟩ := @run_settled configuredEnvironment configuredFiles _ _ _ hread
    configured_home fun _ _ _ => ⟨.json, by decide +kernel⟩
  obtain rfl := Except.ok.inj (hplain.symm.trans hasked)
  refine ⟨(hsame "e" (by decide)).2 {} configuredFiles _ rfl rfl (fun _ _ => rfl) ?_,
    by decide +kernel⟩
  decide +kernel

end Run

end Lexis

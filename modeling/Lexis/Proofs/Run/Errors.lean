/-
  Lexis.Proofs.Run.Errors

  The errors that a run ends with, each said from what the run finds.

  Each stage has its ways to fail, and each of them is reported by a line of its own: the category
  of the error with a text in quotes, or what the system says about a file. Which error is the first
  is said here stage by stage, without the program that looks for it.
-/

import Lexis.Proofs.Run.Configuration
import Lexis.Proofs.Run.Stages

namespace Lexis

/-- The source that the file at a path holds: its text without a mark at the beginning. -/
def Files.HoldsSource (files : Files) (path source : String) : Prop :=
  ∃ bytes cs, files path = .file bytes ∧ Utf8.decode bytes = .ok cs ∧
    source = String.ofList (Utf8.dropByteOrderMark cs)

theorem Files.holdsSource_iff {files : Files} {path source : String} :
    files.HoldsSource path source ↔ files.readSource path = .ok source := by
  cases hentry : files path with
  | missing | directory | unreadable => simp [HoldsSource, readSource, hentry]
  | file bytes =>
    cases hdecode : Utf8.decode bytes <;>
      simp [HoldsSource, readSource, hentry, hdecode, eq_comm]

namespace Run

open CommandLine

/-- Reading all of some files gives the sources that they hold. -/
theorem mapM_readSource_eq_ok_iff {files : Files} {paths sources : List String} :
    paths.mapM files.readSource = .ok sources ↔
      List.Forall₂ files.HoldsSource paths sources := by
  rw [mapM_eq_ok_iff]
  exact ⟨List.Forall₂.imp fun _ _ => Files.holdsSource_iff.2,
    List.Forall₂.imp fun _ _ => Files.holdsSource_iff.1⟩

theorem exists_error_of_not_holdsText {files : Files} {path : String}
    (h : ¬ files.HoldsText path) : ∃ f, files.readSource path = .error f := by
  cases hread : files.readSource path with
  | error f => exact ⟨f, rfl⟩
  | ok source => exact absurd (Files.holdsText_iff.2 ⟨source, hread⟩) h

variable {env : Environment} {files : Files} {r : Request} {config asked : Option String}
  {path configured line : String}

/-! ## Lines that report errors -/

/-- The line that reports an error: its category, and in quotes what it says. -/
def errorLine (category text : String) : String :=
  "Error: " ++ category ++ "(" ++ (String.ofList (Text.quote text.toList) ++ ")")

/-- The line that reports what the system says about a file. -/
def systemErrorLine (e : SystemError) : String :=
  "Error: Io(" ++ ("Os \x7b code: " ++ toString e.code ++ ", kind: " ++ e.kind ++ ", message: " ++
    String.ofList (Text.quote e.message.toList) ++ " \x7d)")

/-- The ways in which a configuration cannot be loaded. -/
inductive ConfigurationError (env : Environment) (files : Files) (config : Option String) :
    String → Prop where
  | missing {path : String} (hfound : ConfigurationAt env files config (some path))
      (hentry : files path = .missing) :
      ConfigurationError env files config
        (errorLine "Config" ("Configuration file not found: " ++ path))
  | directory {path : String} (hfound : ConfigurationAt env files config (some path))
      (hentry : files path = .directory) :
      ConfigurationError env files config
        "Error: Io(Os \x7b code: 21, kind: IsADirectory, message: \"Is a directory\" \x7d)"
  | unreadable {path : String} {e : SystemError}
      (hfound : ConfigurationAt env files config (some path))
      (hentry : files path = .unreadable e) :
      ConfigurationError env files config (systemErrorLine e)
  | notUtf8 {path : String} {bytes : List UInt8} {defect : Utf8.Defect}
      (hfound : ConfigurationAt env files config (some path)) (hentry : files path = .file bytes)
      (hdecode : Utf8.decode bytes = .error defect) :
      ConfigurationError env files config
        ("Error: Io(Error \x7b kind: InvalidData, " ++
          "message: \"stream did not contain valid UTF-8\" \x7d)")
  /-- What is wrong stands on more lines, and is not told here. -/
  | malformed {path : String} {bytes : List UInt8} {cs : List Char}
      (hfound : ConfigurationAt env files config (some path)) (hentry : files path = .file bytes)
      (hdecode : Utf8.decode bytes = .ok cs) (hparse : ∀ s, Settings.parse cs ≠ .ok s) :
      ConfigurationError env files config "Error: Config(\"Failed to parse configuration:"

/-- The ways in which a dump has no format. -/
inductive FormatError (configured : String) : Option String → String → Prop where
  | unknown {name : String} (hname : Format.ofName? name = none) :
      FormatError configured (some name) (errorLine "Validation" ("Unknown format: " ++ name))
  | configured (hname : Format.ofName? configured = none) :
      FormatError configured none
        (errorLine "Config" ("Invalid format in configuration: " ++ configured))

/-- The ways in which an input cannot be read. -/
inductive SourceError (files : Files) (path : String) : String → Prop where
  | notAFile (hentry : files path = .missing ∨ files path = .directory) :
      SourceError files path (errorLine "Validation" ("Input path is not a file: " ++ path))
  | unreadable {e : SystemError} (hentry : files path = .unreadable e) :
      SourceError files path (systemErrorLine e)
  | invalid {bytes : List UInt8} {length index : Nat} (hentry : files path = .file bytes)
      (hdecode : Utf8.decode bytes = .error (.invalid length index)) :
      SourceError files path (errorLine "FileOperation"
        ("Source is not valid UTF-8: " ++ path ++ ": " ++ ("invalid utf-8 sequence of " ++
          toString length ++ " bytes from index " ++ toString index)))
  | incomplete {bytes : List UInt8} {index : Nat} (hentry : files path = .file bytes)
      (hdecode : Utf8.decode bytes = .error (.incomplete index)) :
      SourceError files path (errorLine "FileOperation"
        ("Source is not valid UTF-8: " ++ path ++ ": " ++
          ("incomplete utf-8 byte sequence from index " ++ toString index)))

/-- The error of the first stage of a request that fails, by the line that reports it. -/
inductive FirstError (env : Environment) (files : Files) (r : Request) : String → Prop where
  /-- The configuration is loaded first. -/
  | configuration {line : String} (hload : ConfigurationError env files r.config line) :
      FirstError env files r line
  /-- Then a dump needs its format; a check needs none. -/
  | format {settings : Settings} {inputs : List String} {asked : Option String} {spans : Bool}
      {line : String} (hload : Configured env files r.config settings)
      (hcommand : r.command = .tokens inputs asked spans)
      (hformat : FormatError settings.format asked line) : FirstError env files r line
  /-- Then the files are read in the order given, up to the first that cannot be. -/
  | input {settings : Settings} {before : List String} {path : String} {after : List String}
      {line : String} (hload : Configured env files r.config settings)
      (hformat : ∀ inputs asked spans, r.command = .tokens inputs asked spans →
        ∃ format, Format.ofName? (asked.getD settings.format) = some format)
      (hinputs : r.command.inputs = before ++ path :: after)
      (hbefore : ∀ p ∈ before, files.HoldsText p) (hpath : SourceError files path line) :
      FirstError env files r line

/-! ## The failures that they report -/

/-- An error of the system is reported with its code, its kind and its message. -/
theorem report_system (e : SystemError) : (Failure.system e).report = systemErrorLine e := by
  have hfront : "Error: " ++ "Io" ++ "(" = "Error: Io(" := by decide +kernel
  rw [systemErrorLine, ← hfront]
  rfl

theorem report_isDirectory : (Failure.system .isDirectory).report =
    "Error: Io(Os \x7b code: 21, kind: IsADirectory, message: \"Is a directory\" \x7d)" := by
  decide +kernel

theorem report_lexicalErrors (count : Nat) : (Failure.lexicalErrors count).report =
    errorLine "CommandExecution" (toString count ++ " lexical error(s) found") := by
  rfl

/-- A text that is no configuration is malformed. -/
theorem parse_ne_ok_iff {cs : List Char} :
    (∀ s, Settings.parse cs ≠ .ok s) ↔ Settings.parse cs = .error .malformedConfiguration := by
  unfold Settings.parse
  split <;> simp

/-- A configuration fails to load in one of these ways. -/
theorem configurationError_iff : ConfigurationError env files config line ↔
    ∃ f, loadSettings env files config = .error f ∧ line = f.report := by
  have hload : ∀ path, loadFound files (some path) =
      (files.readConfiguration path).bind Settings.parse := fun _ => rfl
  constructor
  · intro h
    -- Each way in which a configuration fails gives its own report.
    cases h with
    | missing hfound hentry =>
      refine ⟨.missingConfiguration _, ?_, rfl⟩
      rw [hfound.loadSettings_eq, hload, Files.readConfiguration, hentry]
      rfl
    | directory hfound hentry =>
      refine ⟨.system .isDirectory, ?_, report_isDirectory.symm⟩
      rw [hfound.loadSettings_eq, hload, Files.readConfiguration, hentry]
      rfl
    | unreadable hfound hentry =>
      refine ⟨.system _, ?_, (report_system _).symm⟩
      rw [hfound.loadSettings_eq, hload, Files.readConfiguration, hentry]
      rfl
    | notUtf8 hfound hentry hdecode =>
      refine ⟨.configurationNotUtf8, ?_, by decide +kernel⟩
      rw [hfound.loadSettings_eq, hload, Files.readConfiguration, hentry]
      simp only [hdecode]
      rfl
    | malformed hfound hentry hdecode hparse =>
      refine ⟨.malformedConfiguration, ?_, by decide +kernel⟩
      rw [hfound.loadSettings_eq, hload, Files.readConfiguration, hentry]
      simp only [hdecode]
      exact parse_ne_ok_iff.1 hparse
  · rintro ⟨f, h, rfl⟩
    obtain ⟨found, hfound⟩ := exists_configurationAt env files config
    rw [hfound.loadSettings_eq] at h
    -- The other way round: no configuration at all is no failure, and one that is found is read.
    cases found with
    | none => cases h
    | some path =>
      rw [hload, Files.readConfiguration] at h
      cases hentry : files path with
      | missing =>
        rw [hentry] at h
        cases h
        exact .missing hfound hentry
      | directory =>
        rw [hentry] at h
        cases h
        rw [report_isDirectory]
        exact .directory hfound hentry
      | unreadable e =>
        rw [hentry] at h
        cases h
        rw [report_system]
        exact .unreadable hfound hentry
      | file bytes =>
        rw [hentry] at h
        cases hdecode : Utf8.decode bytes with
        | error defect =>
          simp only [hdecode] at h
          cases h
          exact .notUtf8 hfound hentry hdecode
        | ok cs =>
          simp only [hdecode] at h
          -- There is one report for texts that are no settings, wherever they go wrong.
          have hparse : ∀ s, Settings.parse cs ≠ .ok s := fun s hs => by
            have hok : Settings.parse cs = .error f := h
            rw [hs] at hok
            cases hok
          obtain rfl := Except.error.inj ((parse_ne_ok_iff.1 hparse).symm.trans h)
          exact .malformed hfound hentry hdecode hparse

/-- The format of a dump is that of the name that counts. -/
theorem resolve_eq_ok_iff {format : Format} : Format.resolve asked configured = .ok format ↔
    Format.ofName? (asked.getD configured) = some format := by
  cases asked with
  | some name => cases hname : Format.ofName? name <;> simp [Format.resolve, hname]
  | none => cases hname : Format.ofName? configured <;> simp [Format.resolve, hname]

/-- A dump fails to have a format in one of these ways. -/
theorem formatError_iff : FormatError configured asked line ↔
    ∃ f, Format.resolve asked configured = .error f ∧ line = f.report := by
  constructor
  · intro h
    cases h with
    | @unknown name hname =>
      refine ⟨.unknownFormat name, ?_, rfl⟩
      rw [Format.resolve, hname]
      rfl
    | configured hname =>
      refine ⟨.configuredFormat configured, ?_, rfl⟩
      rw [Format.resolve, hname]
      rfl
  · rintro ⟨f, h, rfl⟩
    cases asked with
    | some name =>
      cases hname : Format.ofName? name with
      | some format =>
        rw [Format.resolve, hname] at h
        cases h
      | none =>
        rw [Format.resolve, hname] at h
        cases h
        exact .unknown hname
    | none =>
      cases hname : Format.ofName? configured with
      | some format =>
        rw [Format.resolve, hname] at h
        cases h
      | none =>
        rw [Format.resolve, hname] at h
        cases h
        exact .configured hname

/-- An input fails to be read in one of these ways. -/
theorem sourceError_iff : SourceError files path line ↔
    ∃ f, files.readSource path = .error f ∧ line = f.report := by
  constructor
  · intro h
    -- The same for a source: what stands at its path decides about the report.
    cases h with
    | notAFile hentry =>
      refine ⟨.notAFile path, ?_, rfl⟩
      rcases hentry with hentry | hentry <;> rw [Files.readSource, hentry]
    | unreadable hentry =>
      refine ⟨.system _, ?_, (report_system _).symm⟩
      rw [Files.readSource, hentry]
    | @invalid bytes length index hentry hdecode =>
      refine ⟨.notUtf8 path (.invalid length index), ?_, rfl⟩
      rw [Files.readSource, hentry]
      simp only [hdecode]
    | @incomplete bytes index hentry hdecode =>
      refine ⟨.notUtf8 path (.incomplete index), ?_, rfl⟩
      rw [Files.readSource, hentry]
      simp only [hdecode]
  · rintro ⟨f, h, rfl⟩
    rw [Files.readSource] at h
    cases hentry : files path with
    | missing =>
      rw [hentry] at h
      cases h
      exact .notAFile (.inl hentry)
    | directory =>
      rw [hentry] at h
      cases h
      exact .notAFile (.inr hentry)
    | unreadable e =>
      rw [hentry] at h
      cases h
      rw [report_system]
      exact .unreadable hentry
    | file bytes =>
      rw [hentry] at h
      cases hdecode : Utf8.decode bytes with
      | ok cs =>
        simp only [hdecode] at h
        cases h
      | error defect =>
        simp only [hdecode] at h
        cases h
        cases defect with
        | invalid length index => exact .invalid hentry hdecode
        | incomplete index => exact .incomplete hentry hdecode

/-- The first error is the line that reports the first failure. -/
theorem firstError_iff : FirstError env files r line ↔
    ∃ f, FirstFailure env files r f ∧ line = f.report := by
  constructor
  · intro h
    -- Stage by stage; what stands before a stage has succeeded on both sides.
    cases h with
    | configuration hload =>
      obtain ⟨f, hf, rfl⟩ := configurationError_iff.1 hload
      exact ⟨f, .configuration hf, rfl⟩
    | format hload hcommand hformat =>
      obtain ⟨f, hf, rfl⟩ := formatError_iff.1 hformat
      exact ⟨f, .format (loadSettings_eq_ok_iff.2 hload) hcommand hf, rfl⟩
    | input hload hformat hinputs hbefore hpath =>
      obtain ⟨f, hf, rfl⟩ := sourceError_iff.1 hpath
      refine ⟨f, .input (loadSettings_eq_ok_iff.2 hload) ?_ hinputs ?_ hf, rfl⟩
      · intro inputs asked spans hcommand
        obtain ⟨format, hname⟩ := hformat inputs asked spans hcommand
        exact ⟨format, resolve_eq_ok_iff.2 hname⟩
      · exact fun p hp => Files.holdsText_iff.1 (hbefore p hp)
  · rintro ⟨f, h, rfl⟩
    cases h with
    | configuration hload => exact .configuration (configurationError_iff.2 ⟨f, hload, rfl⟩)
    | format hload hcommand hformat =>
      exact .format (loadSettings_eq_ok_iff.1 hload) hcommand (formatError_iff.2 ⟨f, hformat, rfl⟩)
    | input hload hformat hinputs hbefore hpath =>
      refine .input (loadSettings_eq_ok_iff.1 hload) ?_ hinputs ?_
        (sourceError_iff.2 ⟨f, hpath, rfl⟩)
      · intro inputs asked spans hcommand
        obtain ⟨format, hresolve⟩ := hformat inputs asked spans hcommand
        exact ⟨format, resolve_eq_ok_iff.1 hresolve⟩
      · exact fun p hp => Files.holdsText_iff.2 (hbefore p hp)

end Run

end Lexis

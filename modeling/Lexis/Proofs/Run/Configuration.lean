/-
  Lexis.Proofs.Run.Configuration

  Where a run takes its configuration from, and the settings that it finds there.

  A file that is named is taken, whatever else exists. Otherwise the first of three places that
  holds anything is taken, so nothing that stands in a later one has any effect. This is said here
  without a search: a place counts where all places before it are missing.
-/

import Lexis.Run.Program
import Mathlib.Tactic.Push

namespace Lexis

namespace Files

variable {files : Files} {path : String} {paths : List String}

/-! ## The first path that names anything -/

theorem findExisting?_cons_of_ne (h : files path ≠ .missing) :
    files.findExisting? (path :: paths) = some path :=
  List.find?_cons_of_pos (decide_eq_true h)

theorem findExisting?_cons_of_missing (h : files path = .missing) :
    files.findExisting? (path :: paths) = files.findExisting? paths :=
  List.find?_cons_of_neg (by simp [h])

/-- A place that is not known, or at which nothing stands, is passed over. -/
theorem findExisting?_toList_append {place : Option String}
    (h : ∀ p, place = some p → files p = .missing) :
    files.findExisting? (place.toList ++ paths) = files.findExisting? paths := by
  cases place with
  | none => rfl
  | some p => exact findExisting?_cons_of_missing (h p rfl)

end Files

namespace Run

variable {env : Environment} {files : Files} {directory stem path : String}
  {config found : Option String} {settings : Settings}

/-! ## Paths into a directory -/

/-- What the paths into a directory start with: the directory, with a slash behind it unless it ends
    in one or is not named at all. -/
inductive Stem : String → String → Prop where
  | plain {directory : String} (h : directory = "" ∨ directory.toList.getLast? = some '/') :
      Stem directory directory
  | slash {directory : String} {c : Char} (h : directory.toList.getLast? = some c) (hc : c ≠ '/') :
      Stem directory (directory ++ "/")

theorem exists_stem (directory : String) : ∃ stem, Stem directory stem := by
  cases hlast : directory.toList.getLast? with
  | none =>
    have hempty : directory = "" := by simpa using hlast
    exact ⟨directory, .plain (.inl hempty)⟩
  | some c =>
    by_cases hc : c = '/'
    · exact ⟨directory, .plain (.inr (hlast.trans (congrArg some hc)))⟩
    · exact ⟨directory ++ "/", .slash hlast hc⟩

/-- A path in a directory is that beginning with the name behind it. -/
theorem Stem.joinPath_eq (h : Stem directory stem) (name : String) :
    joinPath directory name = stem ++ name := by
  cases h with
  | plain hplain => exact if_pos hplain
  | slash hlast hc =>
    refine if_neg fun hor => ?_
    rcases hor with rfl | hslash
    · cases hlast
    · exact hc (Option.some.inj (hlast.symm.trans hslash))

/-- Behind a name comes a slash. -/
theorem joinPath_append {front name : String} {c : Char} (hlast : name.toList.getLast? = some c)
    (hc : c ≠ '/') (next : String) :
    joinPath (front ++ name) next = front ++ (name ++ "/" ++ next) := by
  have hstem : Stem (front ++ name) (front ++ name ++ "/") := by
    refine .slash (c := c) ?_ hc
    rw [String.toList_append, List.getLast?_append, hlast, Option.some_or]
  rw [hstem.joinPath_eq]
  simp only [String.append_assoc]

theorem Stem.configurationIn_eq (h : Stem directory stem) :
    Environment.configurationIn directory = stem ++ "quillt/quillt.toml" := by
  rw [Environment.configurationIn, h.joinPath_eq,
    joinPath_append (c := 't') (by decide +kernel) (by decide)]
  rfl

theorem Stem.configurationIn_joinPath_eq (h : Stem directory stem) :
    Environment.configurationIn (joinPath directory ".config") =
      stem ++ ".config/quillt/quillt.toml" := by
  rw [Environment.configurationIn, h.joinPath_eq,
    joinPath_append (c := 'g') (by decide +kernel) (by decide),
    joinPath_append (c := 't') (by decide +kernel) (by decide)]
  rfl

/-! ## Places -/

/-- A path is that of the configuration at home. -/
def AtHome (env : Environment) (path : String) : Prop :=
  ∃ directory stem, env.home = some directory ∧ Stem directory stem ∧
    path = stem ++ ".config/quillt/quillt.toml"

/-- A path is that of the configuration in the directory that the system has for those. -/
def AtSystem (env : Environment) (path : String) : Prop :=
  ∃ directory stem, env.configDirectory = some directory ∧ Stem directory stem ∧
    path = stem ++ "quillt/quillt.toml"

/-- The place of a home configuration is the one that is looked at. -/
theorem atHome_iff : AtHome env path ↔ env.homeConfiguration? = some path := by
  rw [Environment.homeConfiguration?, Option.map_eq_some_iff]
  constructor
  · rintro ⟨directory, stem, hhome, hstem, rfl⟩
    exact ⟨directory, hhome, hstem.configurationIn_joinPath_eq⟩
  · rintro ⟨directory, hhome, rfl⟩
    obtain ⟨stem, hstem⟩ := exists_stem directory
    exact ⟨directory, stem, hhome, hstem, hstem.configurationIn_joinPath_eq⟩

theorem atSystem_iff : AtSystem env path ↔ env.systemConfiguration? = some path := by
  rw [Environment.systemConfiguration?, Option.map_eq_some_iff]
  constructor
  · rintro ⟨directory, stem, hsystem, hstem, rfl⟩
    exact ⟨directory, hsystem, hstem.configurationIn_eq⟩
  · rintro ⟨directory, hsystem, rfl⟩
    obtain ⟨stem, hstem⟩ := exists_stem directory
    exact ⟨directory, stem, hsystem, hstem, hstem.configurationIn_eq⟩

/-- A directory that is named from the root is the one that is looked into. -/
theorem systemConfiguration?_ofVariables_of_root {vars : CommandLine.Variables}
    {home : Option String} (hroot : directory.toList.head? = some '/') :
    (Environment.ofVariables vars home (some directory)).systemConfiguration? =
      some (Environment.configurationIn directory) := by
  have hnamed : (some directory).filter (·.toList.head? = some '/') = some directory := by
    rw [Option.filter_some, if_pos (decide_eq_true hroot)]
  unfold Environment.systemConfiguration? Environment.ofVariables
  simp only [hnamed]
  rfl

/-- A directory that is named otherwise does not count, and the one at home takes its place: the
    second and the third place are then the same. -/
theorem systemConfiguration?_ofVariables_of_not_root {vars : CommandLine.Variables}
    {home named : Option String} (hnot : ∀ d, named = some d → d.toList.head? ≠ some '/') :
    (Environment.ofVariables vars home named).systemConfiguration? =
      (Environment.ofVariables vars home named).homeConfiguration? := by
  have hnamed : named.filter (·.toList.head? = some '/') = none := by
    rw [Option.filter_eq_none_iff]
    intro d hd
    simpa using hnot d hd
  unfold Environment.systemConfiguration? Environment.homeConfiguration? Environment.ofVariables
  simp only [hnamed]
  cases home.filter (· ≠ "") with
  | none => rfl
  | some atHome => rfl

/-- Where the configuration of a run stands, if it has any: at the path that it is told, or else at
    the first of its places that names anything. -/
inductive ConfigurationAt (env : Environment) (files : Files) :
    Option String → Option String → Prop where
  | named (path : String) : ConfigurationAt env files (some path) (some path)
  /-- In the directory of the run. -/
  | current (hcurrent : files "quillt.toml" ≠ .missing) :
      ConfigurationAt env files none (some "quillt.toml")
  | home {path : String} (hcurrent : files "quillt.toml" = .missing) (hpath : AtHome env path)
      (hfound : files path ≠ .missing) : ConfigurationAt env files none (some path)
  | system {path : String} (hcurrent : files "quillt.toml" = .missing)
      (hhome : ∀ p, AtHome env p → files p = .missing) (hpath : AtSystem env path)
      (hfound : files path ≠ .missing) : ConfigurationAt env files none (some path)
  | absent (hcurrent : files "quillt.toml" = .missing)
      (hhome : ∀ p, AtHome env p → files p = .missing)
      (hsystem : ∀ p, AtSystem env p → files p = .missing) : ConfigurationAt env files none none

/-- Some place is the first, or there is none. -/
theorem exists_configurationAt (env : Environment) (files : Files) (config : Option String) :
    ∃ found, ConfigurationAt env files config found := by
  cases config with
  | some path => exact ⟨_, .named path⟩
  | none =>
    -- Place by place, each looked at only where those before it are missing.
    by_cases hcurrent : files "quillt.toml" = .missing
    · by_cases hhome : ∀ p, AtHome env p → files p = .missing
      · by_cases hsystem : ∀ p, AtSystem env p → files p = .missing
        · exact ⟨_, .absent hcurrent hhome hsystem⟩
        · push Not at hsystem
          obtain ⟨path, hpath, hfound⟩ := hsystem
          exact ⟨_, .system hcurrent hhome hpath hfound⟩
      · push Not at hhome
        obtain ⟨path, hpath, hfound⟩ := hhome
        exact ⟨_, .home hcurrent hpath hfound⟩
    · exact ⟨_, .current hcurrent⟩

/-- The search through the places comes to the first that names anything. -/
theorem ConfigurationAt.findExisting?_eq (h : ConfigurationAt env files none found) :
    files.findExisting? env.configurations = found := by
  rw [Environment.configurations, Environment.configurationName]
  -- What is missing in front is passed, and what is there is found.
  cases h with
  | current hcurrent => exact Files.findExisting?_cons_of_ne hcurrent
  | home hcurrent hpath hfound =>
    rw [Files.findExisting?_cons_of_missing hcurrent, atHome_iff.1 hpath]
    exact Files.findExisting?_cons_of_ne hfound
  | system hcurrent hhome hpath hfound =>
    rw [Files.findExisting?_cons_of_missing hcurrent,
      Files.findExisting?_toList_append fun p hp => hhome p (atHome_iff.2 hp), atSystem_iff.1 hpath]
    exact Files.findExisting?_cons_of_ne hfound
  | absent hcurrent hhome hsystem =>
    rw [Files.findExisting?_cons_of_missing hcurrent,
      Files.findExisting?_toList_append fun p hp => hhome p (atHome_iff.2 hp),
      ← List.append_nil env.systemConfiguration?.toList,
      Files.findExisting?_toList_append fun p hp => hsystem p (atSystem_iff.2 hp)]
    rfl

/-- What is read of the configuration that stands at a path, or of none. -/
def loadFound (files : Files) : Option String → Except Failure Settings
  | none => .ok {}
  | some path => Settings.load files path

/-- A run loads the configuration from where it stands, and from nowhere else. -/
theorem ConfigurationAt.loadSettings_eq (h : ConfigurationAt env files config found) :
    loadSettings env files config = loadFound files found := by
  cases config with
  | some path =>
    cases h
    rfl
  | none =>
    rw [loadSettings, Settings.loadFirst, h.findExisting?_eq]
    cases found <;> rfl

/-! ## Settings -/

/-- The settings that a run finds: those of its configuration, or where it has none the defaults. -/
inductive Configured (env : Environment) (files : Files) (config : Option String) :
    Settings → Prop where
  | defaults (hfound : ConfigurationAt env files config none) :
      Configured env files config ⟨false, "text", false, none⟩
  | loaded {path : String} {bytes : List UInt8} {cs : List Char} {settings : Settings}
      (hfound : ConfigurationAt env files config (some path)) (hfile : files path = .file bytes)
      (hdecode : Utf8.decode bytes = .ok cs) (hparse : Settings.parse cs = .ok settings) :
      Configured env files config settings

/-- A configuration is loaded from a file that is UTF-8 and that sets its settings. -/
theorem load_eq_ok_iff :
    Settings.load files path = .ok settings ↔
      ∃ bytes cs, files path = .file bytes ∧ Utf8.decode bytes = .ok cs ∧
        Settings.parse cs = .ok settings := by
  rw [Settings.load, Files.readConfiguration]
  cases hentry : files path with
  | missing | directory | unreadable => simp [Except.bind]
  | file bytes => cases hdecode : Utf8.decode bytes <;> simp [hdecode, Except.bind]

/-- The settings of a run are those that it finds. -/
theorem loadSettings_eq_ok_iff :
    loadSettings env files config = .ok settings ↔ Configured env files config settings := by
  constructor
  · intro h
    obtain ⟨found, hfound⟩ := exists_configurationAt env files config
    rw [hfound.loadSettings_eq] at h
    -- A configuration that is found must be read; without one the defaults hold.
    cases found with
    | none =>
      cases h
      exact .defaults hfound
    | some path =>
      obtain ⟨bytes, cs, hfile, hdecode, hparse⟩ := load_eq_ok_iff.1 h
      exact .loaded hfound hfile hdecode hparse
  · intro h
    cases h with
    | defaults hfound => exact hfound.loadSettings_eq
    | loaded hfound hfile hdecode hparse =>
      rw [hfound.loadSettings_eq]
      exact load_eq_ok_iff.2 ⟨_, _, hfile, hdecode, hparse⟩

end Run

end Lexis

/-
  Lexis.Run.Environment

  What a run finds around it besides files.

  A configuration that is not asked for by name may stand in three places: the directory of the
  run, the home directory, and the directory that the system has for configurations. They are
  looked at in this order, and the first that holds anything counts.
-/

import Lexis.CommandLine.Request

namespace Lexis.Run

/-- What a run finds around it besides files. -/
structure Environment where
  /-- The variables that stand in for options. -/
  vars : CommandLine.Variables := {}
  /-- The home directory. -/
  home : Option String := none
  /-- The directory that the system has for configurations. -/
  configDirectory : Option String := none
  deriving DecidableEq

/-- The path of a name in a directory; one slash stands between them. -/
def joinPath (directory name : String) : String :=
  if directory = "" ∨ directory.toList.getLast? = some '/' then directory ++ name
  else directory ++ "/" ++ name

namespace Environment

/-- Name of a configuration in each of its places. -/
def configurationName : String := "quillt.toml"

/-- Where a configuration stands in a directory that is for those of all programs. -/
def configurationIn (directory : String) : String :=
  joinPath (joinPath directory "quillt") configurationName

/-- Where a configuration may stand at home. -/
def homeConfiguration? (env : Environment) : Option String :=
  env.home.map fun directory => configurationIn (joinPath directory ".config")

/-- Where a configuration may stand in the directory of the system. -/
def systemConfiguration? (env : Environment) : Option String :=
  env.configDirectory.map configurationIn

/-- The paths at which a configuration is looked for, in order, if none is asked for. -/
def configurations (env : Environment) : List String :=
  configurationName :: (env.homeConfiguration?.toList ++ env.systemConfiguration?.toList)

/-- An environment by its variables, among them the one that names the home directory and the one
    that names the directory for configurations. The latter counts if it is a path from the root,
    or else that directory is one at home. -/
def ofVariables (vars : CommandLine.Variables) (home named : Option String) : Environment :=
  let home := home.filter (· ≠ "")
  let named := named.filter (·.toList.head? = some '/')
  ⟨vars, home, named <|> home.map (joinPath · ".config")⟩

end Environment

end Lexis.Run

import ProbeSuite.Failure
import ProbeSuite.Files.Path

/-!
# Standard places

Configuration and history have a standard place each, below directories that the environment may name. A
directory that is not named by an absolute path is the customary one in the home directory. The home directory is
the one that the environment names, or else that of the account; an account may have none.

* `Environment.configFile`, `Environment.historyFile` : the two places, unless there is no directory for them.
-/

namespace ProbeSuite

/-- The home directory, and the directories for configuration and data, as far as they are known. -/
structure Environment where
  home : Option Path
  configHome : Option Path
  dataHome : Option Path

namespace Environment

def appName : String := "probebench"

def configName : String := "probebench.toml"

def historyName : String := "results.json"

/-- A directory that is named, or the customary one. -/
def directory (e : Environment) (named : Option Path) (customary : String) : Option Path :=
  named.filter Path.isAbsolute <|> e.home.map fun home => Path.join home customary.toList

/-- The path of a file of the suite in a directory. -/
def fileIn (directory : Path) (name : String) : Path := Path.join (Path.join directory appName.toList) name.toList

def configFile (e : Environment) : Except ConfigFault Path :=
  match e.directory e.configHome ".config" with
  | some d => .ok (fileIn d configName)
  | none => .error (.other "Unable to determine config directory")

def historyFile (e : Environment) : Except HistoryFault Path :=
  match e.directory e.dataHome ".local/share" with
  | some d => .ok (fileIn d historyName)
  | none => .error (.other "Unable to determine data directory")

end Environment

end ProbeSuite

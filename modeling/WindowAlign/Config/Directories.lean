import WindowAlign.Text.Path

/-!
# Directories

Where the program keeps its files: configuration, data and state each below a
base directory that the environment names, or else below the home directory. A
base that is named counts as it stands, also when it is empty.
-/

namespace WindowAlign

/-- What the environment says about directories. -/
structure Environment where
  home : Option String
  configHome : Option String
  dataHome : Option String
  stateHome : Option String
  deriving DecidableEq, Repr

namespace Environment

/-- The home directory, or the current one. -/
def homeDirectory (e : Environment) : String :=
  e.home.getD "."

def configBase (e : Environment) : String :=
  e.configHome.getD (Path.join e.homeDirectory ".config")

def dataBase (e : Environment) : String :=
  e.dataHome.getD (Path.join e.homeDirectory ".local/share")

def stateBase (e : Environment) : String :=
  e.stateHome.getD (Path.join e.homeDirectory ".local/state")

def withBases (e : Environment) : Environment :=
  { e with
    configHome := some e.configBase
    dataHome := some e.dataBase
    stateHome := some e.stateBase }

def configPath (e : Environment) : String :=
  Path.join (Path.join e.configBase "perfalign") "config.toml"

def dataDirectory (e : Environment) : String :=
  Path.join e.dataBase "perfalign"

def stateDirectory (e : Environment) : String :=
  Path.join e.stateBase "perfalign"

/-- The metrics database where none is configured. -/
def databasePath (e : Environment) : String :=
  Path.join e.dataDirectory "metrics.db"

/-- The log file, to whose name the date is added. -/
def logPath (e : Environment) : String :=
  Path.join e.stateDirectory "perfalign.log"

end Environment

end WindowAlign

import SshDial.Path

/-! # The environment — home directory, local user and host, and where the configuration lies

    A `Machine` says what the system reports, `Environment.ofMachine` reads the surroundings
    off it and `Environment.pinned` puts given values in their place. -/

namespace SshDial

/-- What the system reports about itself. -/
structure Machine where
  homeDir : String
  /-- The name of the user, if the system knows one. -/
  accountName : Option String
  hostName : String
  /-- The variables that are set for programs. -/
  exported : List (String × String)
  deriving Inhabited

/-- The surroundings that reading and resolving depend on. -/
structure Environment where
  homeDir : String
  localUser : String
  localHostName : String
  configPath : String
  deriving DecidableEq, Repr, Inhabited

namespace Environment

/-- Where a user's configuration lies by convention. -/
def defaultConfig (homeDir : String) : String := Path.join [homeDir, ".ssh", "config"]

/-- The surroundings that the system reports.  Without an account the user is taken from the
    variables, and a variable may move the configuration unless it is empty. -/
def ofMachine (m : Machine) : Environment where
  homeDir := m.homeDir
  localUser :=
    m.accountName.getD
      ((m.exported.lookup "USER").getD ((m.exported.lookup "USERNAME").getD ""))
  localHostName := m.hostName
  configPath :=
    match m.exported.lookup "SSH_CONFIG_PATH" with
    | some path => if path = "" then defaultConfig m.homeDir else path
    | none => defaultConfig m.homeDir

/-- The surroundings of a system with some values given; a given home directory also moves
    the configuration. -/
def pinned (m : Machine) (homeDir localUser localHostName configPath : Option String) :
    Environment where
  homeDir := homeDir.getD (ofMachine m).homeDir
  localUser := localUser.getD (ofMachine m).localUser
  localHostName := localHostName.getD (ofMachine m).localHostName
  configPath := configPath.getD ((homeDir.map defaultConfig).getD (ofMachine m).configPath)

/-- A path with a leading `~` replaced by the home directory. -/
def expandTilde (env : Environment) (path : String) : String :=
  match path.toList with
  | ['~'] => env.homeDir
  | '~' :: '/' :: rest => Path.join [env.homeDir, String.ofList rest]
  | '~' :: '\\' :: rest => Path.join [env.homeDir, String.ofList rest]
  | _ => path

end Environment

end SshDial

import SshDial.Config.Reader
import SshDial.Template
import SshDial.Number.Read

/-! # Settings — what a configuration says about one alias

    Stanzas are walked in order and the first value of a keyword stays.  Identity and
    certificate files add up instead, and of the two proxy keywords the first one set keeps
    the other out.  Criteria are looked at in the state that the stanzas before have left. -/

namespace SshDial

open SshDial.Text

/-- The port of the protocol. -/
def Settings.defaultPort : Nat := 22

/-- The effective settings of an alias.  `options` holds the first value of every keyword,
    in the order of first setting. -/
structure Settings where
  host : String
  hostName : String
  port : Number
  user : String
  identityFiles : List String
  certificateFiles : List String
  proxyCommand : Option String
  proxyJump : Option String
  options : List (String × String)
  /-- Has a Host or Match stanza applied? -/
  matched : Bool
  deriving DecidableEq, Inhabited

/-- What settings are asked for: a remote user given by the caller, and whether a Host or
    Match stanza has to apply. -/
structure Settings.Query where
  user : Option String := none
  requireMatch : Bool := false
  deriving DecidableEq, Repr, Inhabited

/-- Who and what settings are worked out for. -/
structure Subject where
  host : String
  env : Environment
  /-- The remote user, if the caller has chosen one. -/
  user : Option String
  deriving Inhabited

/-- What has been collected on the walk through the stanzas. -/
structure Resolution where
  options : List (String × String)
  identityFiles : List String
  certificateFiles : List String
  matched : Bool
  /-- The commands of the `exec` criteria met, none of which is run. -/
  skipped : List (Option String)
  deriving Inhabited

namespace Resolution

/-- Nothing collected. -/
def start : Resolution := ⟨[], [], [], false, []⟩

/-- The value that a keyword has been set to. -/
def get? (s : Resolution) (key : String) : Option String := s.options.lookup key

/-- The remote host name as far as it is known: the alias until one is set. -/
def hostName (subject : Subject) (s : Resolution) : String :=
  match s.get? "hostname" with
  | none => subject.host
  | some configured => Template.expand [('h', subject.host)] configured

/-- The remote user as far as it is known: the caller's choice, the one set, or the local user. -/
def user (subject : Subject) (s : Resolution) : String :=
  subject.user.getD ((s.get? "user").getD subject.env.localUser)

/-- Is a criterion met? The ones that would need a command or a second pass never are. -/
def criterionHolds (subject : Subject) (s : Resolution) (c : Condition) : Bool :=
  match c.criterion with
  | .all => !c.negated
  | .host => Pattern.matchesList c.patterns (s.hostName subject) != c.negated
  | .originalHost => Pattern.matchesList c.patterns subject.host != c.negated
  | .user => Pattern.matchesList c.patterns (s.user subject) != c.negated
  | .localUser => Pattern.matchesList c.patterns subject.env.localUser != c.negated
  | .exec => false
  | .canonical => false
  | .final => false

/-- The state with an `exec` criterion noted. -/
def note (s : Resolution) (c : Condition) : Resolution :=
  if c.criterion = .exec then { s with skipped := s.skipped ++ [c.patterns.head?] } else s

/-- Are all conditions met? They are looked at in order up to the first that is not. -/
def conditionsHold (subject : Subject) : Resolution → List Condition → Bool × Resolution
  | s, [] => (true, s)
  | s, c :: rest =>
    if criterionHolds subject s c then conditionsHold subject (s.note c) rest else (false, s.note c)

/-- Does a stanza apply? -/
def applies (subject : Subject) (s : Resolution) (stanza : Stanza) : Bool × Resolution :=
  match stanza.criteria with
  | .global => (true, s)
  | .host patterns => (Pattern.matchesList patterns subject.host, s)
  | .matching conditions => conditionsHold subject s conditions

/-- The keyword that a keyword keeps out. -/
def rival? (key : String) : Option String :=
  if key = "proxycommand" then some "proxyjump"
  else if key = "proxyjump" then some "proxycommand"
  else none

/-- A list with a value at its end unless it is there already. -/
def insertNew (values : List String) (value : String) : List String :=
  if values.contains value then values else values ++ [value]

/-- Is a keyword barred, by its own earlier value or by its rival's? -/
def isBarred (s : Resolution) (key : String) : Bool :=
  (s.get? key).isSome || ((rival? key).bind s.get?).isSome

/-- The state after one directive of a stanza that applies. -/
def set (s : Resolution) (d : Directive) : Resolution where
  options := if s.isBarred d.key then s.options else s.options ++ [(d.key, d.value)]
  identityFiles :=
    if d.key = "identityfile" then insertNew s.identityFiles d.value else s.identityFiles
  certificateFiles :=
    if d.key = "certificatefile" then insertNew s.certificateFiles d.value else s.certificateFiles
  matched := s.matched
  skipped := s.skipped

/-- The state with the remark that a stanza applies. -/
def mark (s : Resolution) (criteria : Criteria) : Resolution :=
  { s with matched := s.matched || criteria != .global }

/-- The state after one stanza. -/
def visit (subject : Subject) (s : Resolution) (stanza : Stanza) : Resolution :=
  match applies subject s stanza with
  | (false, s) => s
  | (true, s) => stanza.directives.foldl set (s.mark stanza.criteria)

/-- The state after all stanzas. -/
def walk (subject : Subject) (stanzas : List Stanza) : Resolution :=
  stanzas.foldl (visit subject) start

/-- The port that has been set, or the protocol's. -/
def port (s : Resolution) : Number :=
  match s.get? "port" with
  | none => Number.ofInt Settings.defaultPort
  | some value => Number.read value

/-- Does a value switch its keyword off? -/
def isNone (value : String) : Bool := lower value == "none"

/-- The letters that a path may use. -/
def pathTokens (subject : Subject) (s : Resolution) : Template.Values :=
  [('d', subject.env.homeDir), ('u', subject.env.localUser), ('l', subject.env.localHostName),
    ('h', s.hostName subject), ('r', s.user subject), ('n', subject.host), ('p', s.port.text)]

/-- A collected path with its letters and its tilde expanded. -/
def expandPath (subject : Subject) (s : Resolution) (path : String) : String :=
  subject.env.expandTilde (Template.expand (s.pathTokens subject) path)

/-- The settings that a state amounts to. -/
def settings (subject : Subject) (s : Resolution) : Settings where
  host := subject.host
  hostName := s.hostName subject
  port := s.port
  user := s.user subject
  identityFiles := s.identityFiles.map (s.expandPath subject)
  certificateFiles := s.certificateFiles.map (s.expandPath subject)
  proxyCommand := (s.get? "proxycommand").filter (!isNone ·)
  proxyJump := (s.get? "proxyjump").filter (!isNone ·)
  options := s.options
  matched := s.matched

end Resolution

namespace Settings

/-- The entry about an `exec` criterion that was passed over. -/
def skippedEntry (command : Option String) : Log.Entry :=
  .withFields .warn "Match exec is not supported; skipping stanza" [("command", .ofText? command)]

/-- The entry about settings that were worked out. -/
def resolvedEntry (r : Settings) : Log.Entry :=
  .withFields .debug "Resolved SSH host"
    [("host", .text r.host), ("hostName", .text r.hostName), ("port", .number r.port),
      ("user", .text r.user), ("matched", .bool r.matched)]

/-- The settings of an alias, or the refusal to give any when no Host or Match stanza
    applies and one has to. -/
def find (config : Config) (env : Environment) (query : Query) (host : String) :
    Except Failure Settings :=
  let subject : Subject := ⟨host, env, query.user⟩
  let s := Resolution.walk subject config.stanzas
  if query.requireMatch && !s.matched then .error (.unknownHost host) else .ok (s.settings subject)

/-- The settings of an alias with what is logged about them. -/
def resolve (config : Config) (env : Environment) (query : Query) (host : String) :
    Logged (Except Failure Settings) :=
  let skipped :=
    (Resolution.walk ⟨host, env, query.user⟩ config.stanzas).skipped.map skippedEntry
  match find config env query host with
  | .error f => ⟨.error f, skipped⟩
  | .ok r => ⟨.ok r, skipped ++ [resolvedEntry r]⟩

/-- The settings of an alias in the user's configuration. -/
def resolveUser (tree : FileTree) (env : Environment) (query : Query) (host : String) :
    Logged (Except Refusal Settings) :=
  (Config.load tree env {}).bind fun loaded =>
    match loaded with
    | .error fault => ⟨.error fault.refusal, []⟩
    | .ok config => (resolve config env query host).map (·.mapError .failure)

end Settings

end SshDial

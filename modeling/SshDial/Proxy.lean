import SshDial.Check
import SshDial.Jump
import SshDial.Settings

/-! # The proxy command — which template applies, and the command it becomes

    The values of the connection are checked before they are put in. -/

namespace SshDial.Proxy

/-- Where a template comes from. -/
inductive Source where
  | command
  | jump
  deriving DecidableEq, Repr, Inhabited

/-- The keyword that sets a template. -/
def Source.keyword : Source → String
  | .command => "ProxyCommand"
  | .jump => "ProxyJump"

/-- A template that has not been expanded. -/
structure Spec where
  template : String
  source : Source
  deriving DecidableEq, Repr, Inhabited

/-- The template that applies to a host, if one does: a command before a jump chain, and
    neither if it is empty. -/
def spec (r : Settings) : Except JumpFault (Option Spec) :=
  match r.proxyCommand.filter (· ≠ "") with
  | some command => .ok (some ⟨command, .command⟩)
  | none =>
    match r.proxyJump.filter (· ≠ "") with
    | some jump => (Jump.command jump).map fun template => some ⟨template, .jump⟩
    | none => .ok none

/-- The values of the letters beyond host, port and remote user. -/
structure Extra where
  originalHost : Option String := none
  localUser : Option String := none
  localHostName : Option String := none
  homeDir : Option String := none
  deriving DecidableEq, Repr, Inhabited

/-- The values of all letters. -/
def values (host : String) (port : Number) (remoteUser : String) (extra : Extra) : Template.Values :=
  [('h', host), ('p', port.text), ('r', remoteUser)] ++
    (extra.originalHost.map ('n', ·)).toList ++ (extra.localUser.map ('u', ·)).toList ++
    (extra.localHostName.map ('l', ·)).toList ++ (extra.homeDir.map ('d', ·)).toList

/-- The host, port and remote user of a request, if they are fit for a command. -/
def checked (host port remoteUser : Value) : Except Complaint (String × Number × String) := do
  let host ← Check.field "host" Check.someText host
  let port ← Check.field "port" Check.port port
  let remoteUser ← Check.field "remoteUser" Check.text remoteUser
  return (host, port, remoteUser)

/-- The refusal of a host, port or remote user. -/
def refusal (c : Complaint) : Failure :=
  .badRequest ("Invalid ProxyCommand parameter " ++ c.message)
    (some "Port must be an integer between 1 and 65535 and host must be non-empty")

/-- The command that a template becomes. -/
def build (template : String) (host port remoteUser : Value) (extra : Extra) :
    Except Failure String :=
  match checked host port remoteUser with
  | .error c => .error (refusal c)
  | .ok (host, port, remoteUser) => .ok (Template.expand (values host port remoteUser extra) template)

/-- The proxy command of a host, if it has one. -/
def command (r : Settings) (env : Environment) : Except Failure (Option String) :=
  match spec r with
  | .error fault => .error fault.failure
  | .ok none => .ok none
  | .ok (some s) =>
    (build s.template (.text r.hostName) (.number r.port) (.text r.user)
      ⟨some r.host, some env.localUser, some env.localHostName, some env.homeDir⟩).map some

end SshDial.Proxy

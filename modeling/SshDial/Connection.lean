import SshDial.Transport

/-! # Sessions — a client connected to a host

    The settings of the host are found, a transport is opened, and a client is given the
    transport to connect over.  When the client fails, the failure is logged, the client is
    disposed of and the transport is shut down, in this order, before the failure is
    reported. -/

namespace SshDial

/-- What a client session is asked for, checked. -/
structure ConnectRequest where
  host : String
  username : Option String
  port : Option Number
  password : Option String
  privateKeyPath : Option String
  passphrase : Option String
  readyTimeout : Number
  requireMatch : Bool
  deriving Inhabited

namespace ConnectRequest

/-- How long the client may take by default, in milliseconds. -/
def defaultReadyTimeout : Number := 20000

/-- A request out of loose options, or the first complaint about them. -/
def ofOptions (options : Value) : Except Complaint ConnectRequest := do
  let option ← Check.field "" Check.record options
  let checked {α : Type} (name : String) (check : Value → Except FieldFault α) :=
    Check.field name check (option name)
  let host ← checked "host" Check.someText
  let username ← checked "username" (Check.optional Check.someText)
  let port ← checked "port" (Check.optional Check.port)
  let password ← checked "password" (Check.optional Check.text)
  let privateKeyPath ← checked "privateKeyPath" (Check.optional Check.text)
  let passphrase ← checked "passphrase" (Check.optional Check.text)
  let readyTimeout ← checked "readyTimeoutMs" (Check.optional (Check.numberFrom 1000))
  let requireMatch ← checked "requireMatch" (Check.optional Check.bool)
  return {
    host, username, port, password, privateKeyPath, passphrase
    readyTimeout := readyTimeout.getD defaultReadyTimeout
    requireMatch := requireMatch.getD false }

/-- The refusal of loose options. -/
def refusal (c : Complaint) : Failure := .badRequest ("Invalid connection option " ++ c.message) none

end ConnectRequest

/-- What the client is given besides the transport. -/
structure ClientConfig where
  host : String
  port : Number
  username : String
  password : Option String
  privateKeyPath : Option String
  passphrase : Option String
  readyTimeout : Number
  deriving Inhabited

/-- How far a client session has come. -/
inductive Connection.Phase where
  /-- The transport is being opened. -/
  | opening
  /-- The client connects over the transport. -/
  | greeting
  | established
  /-- The client has failed; the transport is being shut down. -/
  | cleaning (why : Refusal)
  | failed (why : Refusal)
  deriving Inhabited

/-- A client session with a host. -/
structure Connection where
  settings : Settings
  client : ClientConfig
  transport : Transport
  phase : Connection.Phase
  deriving Inhabited

/-- What a client throws. -/
inductive ClientFault where
  | loose (error : Value)
  /-- Something that cannot be written into a log, such as an object that holds itself or holds a whole
  number of unlimited size. The attempt to write it is refused in turn. -/
  | unloggable (met : Refusal)
  deriving Inhabited

/-- What can happen to a client session. -/
inductive ConnectionEvent where
  | transport (e : TransportEvent)
  /-- The client has connected, or this was thrown. -/
  | client (result : Except ClientFault Unit)
  /-- The caller closes the session. -/
  | close

/-- What a client session puts out. -/
inductive ConnectionOutput where
  | transport (o : TransportOutput)
  /-- The client is given its configuration and the transport. -/
  | connect (c : ClientConfig)
  /-- The client is disposed of. -/
  | dispose
  | log (e : Log.Entry)

/-- What is logged. -/
def ConnectionOutput.logged? : ConnectionOutput → Option Log.Entry
  | .transport o => o.logged?
  | .log e => some e
  | _ => none

/-- What a transport puts out. -/
def ConnectionOutput.transport? : ConnectionOutput → Option TransportOutput
  | .transport o => some o
  | _ => none

/-- What a relay puts out. -/
def ConnectionOutput.relay? (o : ConnectionOutput) : Option Output := o.transport?.bind (·.relay?)

namespace Connection

open SshDial.Text

/-- The settings that a session uses: the configured ones, with the port that was asked for. -/
def withPort (r : Settings) (port : Option Number) : Settings :=
  match port with
  | some p => { r with port := p }
  | none => r

/-- The settings of the host that a session is asked for. -/
def findSettings (config : Config) (env : Environment) (q : ConnectRequest) :
    Logged (Except Failure Settings) :=
  (Settings.resolve config env ⟨q.username, q.requireMatch⟩ q.host).map
    (·.map fun r => withPort r q.port)

/-- What the client is given.  Without a key file of the caller's choice it is the first
    identity file that exists. -/
def clientConfig (tree : FileTree) (q : ConnectRequest) (r : Settings) : ClientConfig where
  host := r.hostName
  port := r.port
  username := r.user
  password := q.password
  privateKeyPath := q.privateKeyPath.or (r.identityFiles.find? tree.contains)
  passphrase := q.passphrase
  readyTimeout := q.readyTimeout

/-- The entry about a session that is begun. -/
def openingEntry (r : Settings) : Log.Entry :=
  .withFields .debug "Opening SSH connection"
    [("host", .text r.host), ("hostName", .text r.hostName), ("port", .number r.port),
      ("username", .text r.user)]

/-- The entry about a client that failed. -/
def failedEntry (r : Settings) (error : Value) : Log.Entry :=
  .withFields .error "Failed to open SSH connection" [("host", .text r.host), ("error", error)]

/-- The entry about a session that is established. -/
def openedEntry (c : Connection) : Log.Entry :=
  .withFields .info "SSH connection opened"
    [("host", .text c.settings.host), ("hostName", .text c.settings.hostName),
      ("proxied", .bool c.transport.isProxied), ("durationMs", Relay.timeValue c.transport.age)]

/-- The refusal that a client's error becomes: refused credentials and lack of an answer are
    told apart from everything else by the error's message. -/
def clientRefusal (r : Settings) (error : Value) : Refusal :=
  let other :=
    Refusal.wrap error (.text ErrorCode.connection.text)
      (some "Verify the host, port, and proxy configuration") {}
  match error with
  | .error _ message _ =>
    let words := (lower message).toList
    if occursIn "authentication".toList words then
      .failure <| .connection "SSH authentication failed"
        (some "Check your username, password, or IdentityFile configuration") { cause := error }
    else if occursIn "timed out".toList words || occursIn "timeout".toList words then
      .failure <| .connection ("SSH handshake with " ++ r.host ++ " timed out")
        (some "Check that the ProxyCommand reaches an SSH server") { cause := error }
    else other
  | _ => other

/-- Begins a session with a host whose settings are known: the transport is asked for. -/
def start (tree : FileTree) (env : Environment) (q : ConnectRequest) (r : Settings)
    (options : TransportOptions) (asked : Except Value Handle) :
    Except Refusal Connection × List ConnectionOutput :=
  let (begun, outputs) := Transport.toHost r env options asked
  (begun.map fun t => ⟨r, clientConfig tree q r, t, .opening⟩,
    .log (openingEntry r) :: outputs.map .transport)

/-- The configuration of a session: the one that is given, else the user's. -/
def findConfig (tree : FileTree) (env : Environment) (given : Option Config) :
    Logged (Except ReadFault Config) :=
  match given with
  | some config => Logged.pure (.ok config)
  | none => Config.load tree env {}

/-- Begins a session out of loose options.  They are checked first, then the configuration
    is found, then the settings of the host, and only then is the transport asked for. -/
def ofOptions (tree : FileTree) (env : Environment) (given : Option Config)
    (options : Value) (through : TransportOptions) (asked : Except Value Handle) :
    Except Refusal Connection × List ConnectionOutput :=
  match ConnectRequest.ofOptions options with
  | .error complaint => (.error (.failure (ConnectRequest.refusal complaint)), [])
  | .ok q =>
    let config := findConfig tree env given
    match config.value with
    | .error fault => (.error fault.refusal, config.entries.map .log)
    | .ok c =>
      let found := findSettings c env q
      let logged := (config.entries ++ found.entries).map ConnectionOutput.log
      match found.value with
      | .error f => (.error (.failure f), logged)
      | .ok r =>
        let (begun, outputs) := start tree env q r through asked
        (begun, logged ++ outputs)

/-- What the state of the transport makes of a session, once these have been put out. -/
def follow (c : Connection) (outputs : List TransportOutput) : Connection × List ConnectionOutput :=
  match c.phase, c.transport.status with
  | .opening, .ready => ({ c with phase := .greeting }, [.connect c.client])
  | .opening, .failed why => ({ c with phase := .failed (.failure why) }, [])
  | .cleaning why, _ =>
    if c.transport.isShut outputs then ({ c with phase := .failed why }, []) else (c, [])
  | _, _ => (c, [])

/-- A change of the transport, and what it makes of the session. -/
def withTransport (c : Connection) (changed : Transport × List TransportOutput) :
    Connection × List ConnectionOutput :=
  let (c, more) := follow { c with transport := changed.1 } changed.2
  (c, changed.2.map .transport ++ more)

/-- What a session does on an event.  The failure of a client is logged before anything else
    is done about it, and if that is refused nothing else is done. -/
def step (c : Connection) : ConnectionEvent → Connection × List ConnectionOutput
  | .transport e => c.withTransport (c.transport.step e)
  | .client result =>
    match c.phase, result with
    | .greeting, .ok () => ({ c with phase := .established }, [.log c.openedEntry])
    | .greeting, .error (.unloggable met) => ({ c with phase := .failed met }, [])
    | .greeting, .error (.loose thrown) =>
      let (c', outputs) :=
        withTransport { c with phase := .cleaning (clientRefusal c.settings thrown) } c.transport.close
      (c', [.log (failedEntry c.settings thrown), .dispose] ++ outputs)
    | _, _ => (c, [])
  | .close =>
    match c.phase with
    | .established =>
      let (c', outputs) := c.withTransport c.transport.close
      (c', .dispose :: outputs)
    | _ => (c, [])

/-- Is the transport of a session shut down once these have been put out? -/
def isShut (c : Connection) (outputs : List ConnectionOutput) : Bool :=
  c.transport.isShut (outputs.filterMap (·.transport?))

/-- What a session does on some events, one after the other. -/
def run (c : Connection) : List ConnectionEvent → Connection × List ConnectionOutput
  | [] => (c, [])
  | e :: events =>
    (((c.step e).1.run events).1, (c.step e).2 ++ ((c.step e).1.run events).2)

end Connection

end SshDial

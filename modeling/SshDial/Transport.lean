import SshDial.Dial
import SshDial.Launch
import SshDial.Proxy

/-! # Transports — the byte stream to a host

    It leads through a proxy command when one applies, and over plain TCP otherwise. -/

namespace SshDial

/-- How a transport is opened. -/
structure TransportOptions where
  launch : LaunchOptions := {}
  /-- The time allowed for a TCP connection, in milliseconds, in place of the configured one. -/
  connectTimeout : Option Number := none
  deriving Inhabited

/-- Which transport leads to a host. -/
inductive Route where
  | command (command : String)
  | address (host : String) (port : Number) (timeout : Option Number)
  deriving DecidableEq, Inhabited

namespace Route

/-- The time allowed for a TCP connection: the caller's, else the configured number of
    seconds if it is a positive one. -/
def timeout (r : Settings) (options : TransportOptions) : Option Number :=
  match options.connectTimeout with
  | some ms => some ms
  | none =>
    match (r.options.lookup "connecttimeout").map Number.read with
    | some (.finite seconds) =>
      if 0 < seconds then some ((Number.finite seconds).scale 1000) else none
    | _ => none

/-- The route to a host. -/
def find (r : Settings) (env : Environment) (options : TransportOptions) : Except Failure Route :=
  (Proxy.command r env).map fun
    | some line => .command line
    | none => .address r.hostName r.port (timeout r options)

end Route

/-- A transport, open or being opened. -/
inductive Transport where
  | proxy (launch : Launch)
  | tcp (dial : Dial)
  deriving Inhabited

/-- What can happen to a transport. -/
inductive TransportEvent where
  | proxy (e : RelayEvent)
  | tcp (e : DialEvent)

/-- What a transport puts out. -/
inductive TransportOutput where
  /-- The system is asked for a process. -/
  | spawn (command : String) (options : LaunchOptions)
  | relay (o : Output)
  | dial (o : DialOutput)
  | log (e : Log.Entry)

namespace TransportOutput

/-- What is logged. -/
def logged? : TransportOutput → Option Log.Entry
  | .relay (.log e) => some e
  | .dial (.log e) => some e
  | .log e => some e
  | _ => none

/-- What a relay puts out. -/
def relay? : TransportOutput → Option Output
  | .relay o => some o
  | _ => none

/-- Is it the answer to a close? -/
def isClosed : TransportOutput → Bool
  | .relay (.notice (.closed _)) => true
  | _ => false

end TransportOutput

namespace Transport

/-- How far a transport has come. -/
inductive Status where
  | opening
  | ready
  | failed (why : Failure)
  deriving Inhabited

/-- How far a transport has come. -/
def status : Transport → Status
  | .proxy l =>
    match l.phase with
    | .waiting => .opening
    | .launched => .ready
    | .failed why => .failed why
  | .tcp d =>
    match d.phase with
    | .waiting => .opening
    | .connected => .ready
    | .failed why => .failed why

/-- Does the transport run through a proxy command? -/
def isProxied : Transport → Bool
  | .proxy _ => true
  | .tcp _ => false

/-- The relay, if there is a proxy command. -/
def relay? : Transport → Option Relay
  | .proxy l => some l.relay
  | .tcp _ => none

/-- Is the stream or the socket gone? -/
def isDestroyed : Transport → Bool
  | .proxy l => l.relay.stream.destroyed
  | .tcp d => d.destroyed

/-- The time a proxy command has been there, in milliseconds; a socket keeps no time. -/
def age : Transport → Rat
  | .proxy l => l.relay.now - l.relay.born
  | .tcp _ => 0

/-- Begins to open a transport.  `asked` is what the system answers when it is asked for a
    process: a handle to it, or what is thrown. -/
def start (route : Route) (options : TransportOptions) (asked : Except Value Handle) :
    Except Refusal Transport × List TransportOutput :=
  match route with
  | .command command =>
    ((Launch.ofAnswer command options.launch 0 asked).map .proxy,
      [.log (Launch.startEntry command), .spawn command options.launch])
  | .address host port timeout =>
    (.ok (.tcp (Dial.start host port timeout).1),
      (Dial.start host port timeout).2.map .dial)

/-- Begins to open the transport that leads to a host.  If no command can be made out of the
    host's settings, nothing is begun. -/
def toHost (r : Settings) (env : Environment) (options : TransportOptions)
    (asked : Except Value Handle) : Except Refusal Transport × List TransportOutput :=
  match Route.find r env options with
  | .error f => (.error (.failure f), [])
  | .ok route => start route options asked

/-- What a transport does on an event; an event of the other kind does not concern it. -/
def step : Transport → TransportEvent → Transport × List TransportOutput
  | .proxy l, .proxy e => (.proxy (l.step e).1, (l.step e).2.map .relay)
  | .tcp d, .tcp e => (.tcp (d.step e).1, (d.step e).2.map .dial)
  | t, _ => (t, [])

/-- Shuts a transport down. A proxy command is waited for, so this only begins it. -/
def close : Transport → Transport × List TransportOutput
  | .proxy l => (Transport.proxy l).step (.proxy .close)
  | .tcp d => (.tcp d.close.1, d.close.2.map .dial)

/-- Is a transport shut down once these have been put out? -/
def isShut (t : Transport) (outputs : List TransportOutput) : Bool :=
  match t with
  | .proxy _ => outputs.any (·.isClosed)
  | .tcp _ => true

end Transport

end SshDial

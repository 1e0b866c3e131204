import SshDial.Failure
import SshDial.Log.Entry

/-! # Dials — a plain TCP connection

    A dial settles on the first of "connected", "failed" and "timed out", and a failed one
    leaves no socket behind. -/

namespace SshDial

/-- What can happen to a socket that is being connected. -/
inductive DialEvent where
  | connected
  | failed (error : Value)
  /-- The time allowed is over. -/
  | timeout

/-- How far a connection has come. -/
inductive Dial.Phase where
  | waiting
  | connected
  | failed (why : Failure)
  deriving Inhabited

/-- A connection to a host. -/
structure Dial where
  host : String
  port : Number
  /-- The time allowed, in milliseconds, while it is being watched. -/
  timer : Option Number
  phase : Dial.Phase
  /-- Is the first "connected" still to come? -/
  awaitsConnect : Bool
  /-- Does an error of the socket still count? -/
  awaitsError : Bool
  destroyed : Bool
  deriving Inhabited

/-- What a connection does to its socket, and what it logs. -/
inductive DialOutput where
  | connect (host : String) (port : Number)
  | destroy
  | log (e : Log.Entry)

namespace Dial

/-- Begins a connection. -/
def start (host : String) (port : Number) (timeout : Option Number) : Dial × List DialOutput :=
  ({ host, port, timer := timeout, phase := .waiting, awaitsConnect := true, awaitsError := true
     destroyed := false }, [.connect host port])

/-- The host and port as messages name them. -/
def address (d : Dial) : String := d.host ++ ":" ++ d.port.text

/-- The failure to connect. -/
def failure (message : String) (cause : Value) : Failure :=
  .connection message
    (some "Check that the host is reachable and SSH is listening on the port") { cause := cause }

/-- The entry about a connection that has come about. -/
def connectedEntry (d : Dial) : Log.Entry :=
  .withFields .debug "TCP transport connected" [("host", .text d.host), ("port", .number d.port)]

/-- The phase after another outcome: the first one stays. -/
def Phase.settle : Phase → Phase → Phase
  | .waiting, next => next
  | settled, _ => settled

/-- Gives the connection up. -/
def fail (d : Dial) (message : String) (cause : Value) : Dial × List DialOutput :=
  ({ d with
      timer := none
      phase := d.phase.settle (.failed (failure message cause))
      destroyed := true }, [.destroy])

/-- What a connection does on an event.  Of each kind of event the first one counts, and
    once the socket is connected its errors are somebody else's. -/
def step (d : Dial) : DialEvent → Dial × List DialOutput
  | .connected =>
    if d.awaitsConnect then
      ({ d with
          timer := none
          phase := d.phase.settle .connected
          awaitsConnect := false
          awaitsError := false }, [.log d.connectedEntry])
    else (d, [])
  | .failed error =>
    if d.awaitsError then
      fail { d with awaitsError := false }
        ("Connection to " ++ d.address ++ " failed: " ++ error.reason) error
    else (d, [])
  | .timeout =>
    match d.timer with
    | some ms =>
      d.fail ("Connection to " ++ d.address ++ " timed out after " ++ ms.text ++ "ms") .undefined
    | none => (d, [])

/-- The socket is let go. -/
def close (d : Dial) : Dial × List DialOutput := ({ d with destroyed := true }, [.destroy])

/-- What a connection does on some events, one after the other. -/
def run (d : Dial) : List DialEvent → Dial × List DialOutput
  | [] => (d, [])
  | e :: events =>
    (((d.step e).1.run events).1, (d.step e).2 ++ ((d.step e).1.run events).2)

end Dial

end SshDial

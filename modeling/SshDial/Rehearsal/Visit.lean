import SshDial.Rehearsal.Basic

/-! # Visits — a transport or a session is opened, and closed again

    What the surroundings do is fixed before a visit begins. -/

namespace SshDial.Rehearsal

/-- How the network answers a connection. -/
inductive Network where
  | accepts
  | hangs
  | fails (error : Value)
  deriving Inhabited

/-- How everything around a transport behaves. -/
structure Surroundings where
  habits : Habits
  /-- What the system answers when it is asked for a process: a handle, or what is thrown. -/
  asked : Except Value Handle
  /-- The error with which the process that was asked for cannot be started. -/
  startError : Option Value
  network : Network
  /-- Does the client connect, or what does it throw? -/
  client : Except ClientFault Unit

/-- The first thing that happens to a transport by itself, if anything does. -/
def Surroundings.firstEvent (w : Surroundings) : Transport → Option TransportEvent
  | .proxy _ => some (.proxy ((w.startError.map .childError).getD .spawned))
  | .tcp d =>
    match w.network with
    | .accepts => some (.tcp .connected)
    | .fails error => some (.tcp (.failed error))
    | .hangs => if d.timer.isSome then some (.tcp .timeout) else none

/-- The time that passes before the first thing happens to a transport, in milliseconds.
    The clock does not go back for a timer that should have fired already. -/
def Surroundings.delay (w : Surroundings) : Transport → Number
  | .proxy _ => 0
  | .tcp d =>
    match w.network with
    | .hangs => (d.timer.filter (!·.isBelow 0)).getD 0
    | _ => 0

/-- The time that has passed for a transport that began as `start`, in milliseconds. -/
def Surroundings.elapsed (w : Surroundings) (start : Transport) : Transport → Number
  | .proxy l => Number.nearest l.relay.now
  | .tcp _ => w.delay start

/-- The process of a transport ends, at last, without complaint. -/
def lastExit : TransportEvent := .proxy (.exit ⟨some 0, none⟩)

namespace Surroundings

/-- Opens a transport as far as it comes. -/
def openTransport (w : Surroundings) (t : Transport) : Transport × List TransportOutput :=
  match w.firstEvent t with
  | some e => Rig.transport.turn w.habits (t.step e)
  | none => (t, [])

/-- Shuts a transport down as far as it goes. -/
def closeTransport (w : Surroundings) (t : Transport) : Transport × List TransportOutput :=
  Rig.transport.runOn w.habits Transport.isShut (Rig.transport.turn w.habits t.close)

/-- Is a session neither being opened nor being given up? -/
def isSettled (c : Connection) : Bool :=
  match c.phase with
  | .established => true
  | .failed _ => true
  | _ => false

/-- Opens a session as far as it comes: when the transport is there, the client says its word. -/
def openConnection (w : Surroundings) (c : Connection) : Connection × List ConnectionOutput :=
  let (c, reached) :=
    match w.firstEvent c.transport with
    | some e => Rig.connection.turn w.habits (c.step (.transport e))
    | none => (c, [])
  let (c, greeted) := Rig.connection.turn w.habits (c.step (.client w.client))
  Rig.connection.runOn w.habits (fun c _ => isSettled c) (c, reached ++ greeted)

/-- Closes a session as far as it goes. -/
def closeConnection (w : Surroundings) (c : Connection) : Connection × List ConnectionOutput :=
  Rig.connection.runOn w.habits Connection.isShut (Rig.connection.turn w.habits (c.step .close))

end Surroundings

/-- What a transport puts out when it is let go before it is shut down: these have been put
    out by then, and its process ends after all. -/
def transportFarewell (t : Transport) (outputs : List TransportOutput) : List TransportOutput :=
  if t.isShut outputs then [] else (t.step lastExit).2

/-- What a session puts out when it is let go before its transport is shut down. -/
def connectionFarewell (c : Connection) (outputs : List ConnectionOutput) : List ConnectionOutput :=
  if c.isShut outputs then [] else (c.step (.transport lastExit)).2

end SshDial.Rehearsal

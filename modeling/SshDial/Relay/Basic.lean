import SshDial.Failure
import SshDial.Log.Entry

/-! # Relays — a proxy command as a byte stream

    Here are the state of one relay, what can happen to it, and what it puts out.

    A relay owns a child process.  What the child's handle shows (`Child`), the state of the
    stream that the caller reads and writes (`Stream`) and the armed timers (`Timer`) are kept
    apart, so that each rule of `Relay.step` touches the parts it is about. -/

namespace SshDial

/-- The name of a signal. -/
abbrev Signal := String

/-- The signal that asks a process to stop. -/
def Signal.term : Signal := "SIGTERM"

/-- The signal that stops a process for good. -/
def Signal.kill : Signal := "SIGKILL"

/-- How a process ended: with a status, or by a signal. -/
structure Exit where
  code : Option Int
  signal : Option Signal
  deriving DecidableEq, Repr, Inhabited

/-- Where a relay stands in its life. It only ever moves on. -/
inductive Stage where
  /-- The process has been asked for. -/
  | spawned
  /-- The process runs. -/
  | running
  /-- The stream is being given up, or the process has ended its output. -/
  | closed
  /-- The process has ended. -/
  | reaped
  deriving DecidableEq, Repr, Inhabited

namespace Stage

/-- The stage as a word. -/
def word : Stage → String
  | .spawned => "spawned"
  | .running => "running"
  | .closed => "closed"
  | .reaped => "reaped"

/-- The place of a stage in the order of life. -/
def rank : Stage → Nat
  | .spawned => 0
  | .running => 1
  | .closed => 2
  | .reaped => 3

end Stage

/-- A process as its handle shows it. -/
structure Child where
  pid : Option Int
  /-- Does the handle already hold a status or a signal? It may do so before the end is reported. -/
  marked : Bool
  inputEnded : Bool
  inputDestroyed : Bool
  outputEnded : Bool
  outputDestroyed : Bool
  /-- The error that writes to the process meet, if they meet one. -/
  writeError : Option Value
  /-- Does the process take its time over a write? -/
  stalled : Bool
  deriving Inhabited

/-- A process that has just been asked for. -/
def Child.fresh (pid : Option Int) : Child := ⟨pid, false, false, false, false, false, none, false⟩

/-- A text that the caller has given to be written. -/
structure Parcel where
  text : String
  /-- Is the caller told what becomes of it? -/
  reported : Bool
  deriving DecidableEq, Repr, Inhabited

/-- The stream between the caller and the process. -/
structure Stream where
  /-- Does the caller read? -/
  reading : Bool
  /-- The chunks that wait to be read. -/
  queue : List String
  /-- Has the caller been told of the end of the output? -/
  endShown : Bool
  /-- Has the caller ended its writing? -/
  ending : Bool
  /-- Has the end of the caller's writing been passed on? -/
  finished : Bool
  /-- The text that the process is taking, if there is one. -/
  underway : Option Parcel
  /-- The texts that wait behind that one, in order. -/
  backlog : List Parcel
  destroyed : Bool
  /-- The error because of which it was destroyed, if there was one. -/
  fault : Option Refusal
  deriving Inhabited

/-- A stream that nothing has happened to. -/
def Stream.fresh (reading : Bool) : Stream :=
  ⟨reading, [], false, false, false, none, [], false, none⟩

/-- Was the stream destroyed because of an error? -/
def Stream.errored (s : Stream) : Bool := s.fault.isSome

/-- Is no text under way, and does none wait? -/
def Stream.isIdle (s : Stream) : Bool := s.underway.isNone && s.backlog.isEmpty

/-- The size of the chunks that wait to be read, in bytes. -/
def Stream.queued (s : Stream) : Nat := s.queue.foldr (fun chunk n => chunk.utf8ByteSize + n) 0

/-- The queue size at which the process is asked to pause. -/
def Stream.highWater : Nat := 65536

/-- What a timer does when it is due. -/
inductive Purpose where
  /-- An orderly close goes on to ask the process to stop. -/
  | closeTerm
  /-- An orderly close goes on to stop the process for good. -/
  | closeKill
  /-- A destroyed stream's process gets a signal. -/
  | drop (signal : Signal)
  deriving DecidableEq, Repr, Inhabited

/-- Does the timer belong to an orderly close? -/
def Purpose.isClose : Purpose → Bool
  | .closeTerm => true
  | .closeKill => true
  | .drop _ => false

/-- An armed timer. -/
structure Timer where
  due : Rat
  purpose : Purpose
  deriving DecidableEq, Inhabited

/-- The longest delay that a timer of the system can be armed with, in milliseconds. -/
def Timer.longest : Nat := 2147483647

/-- How long a timer runs that is armed with some delay, in milliseconds.  The system's
    timers count whole milliseconds.  A delay that is too long for them, shorter than one,
    infinite or undefined is taken as a single one. -/
def Timer.span : Number → Rat
  | .finite ms => if 1 ≤ ms ∧ ms ≤ Timer.longest then (ms.floor : Rat) else 1
  | _ => 1

/-- How long an orderly close waits before each of its next steps, in milliseconds. -/
def Relay.defaultPatience : Rat := 2000

/-- A proxy command as a byte stream. -/
structure Relay where
  command : String
  /-- How long to wait for the process before the next, stronger step. It is the time that the timers
  run, which may be another than the one that was asked for (`Timer.span`). -/
  patience : Rat
  /-- The time when the relay was made. -/
  born : Rat
  now : Rat
  stage : Stage
  exit : Option Exit
  child : Child
  stream : Stream
  /-- The number of bytes that the process has put out. -/
  received : Nat
  /-- Has this side sent the process a signal? -/
  terminating : Bool
  /-- Is the process to be stopped when the program itself ends? -/
  tracked : Bool
  /-- The armed timers in the order in which they were armed. -/
  timers : List Timer
  /-- The number of closes that have done all they can and wait for the end of the process. -/
  closing : Nat
  /-- The number of callers that wait for the end of the process. -/
  waiting : Nat
  deriving Inhabited

/-- A relay over a process that has just been asked for. -/
def Relay.fresh (command : String) (patience now : Rat) (pid : Option Int) (reading : Bool) : Relay :=
  { command, patience, born := now, now, stage := .spawned, exit := none, child := .fresh pid
    stream := .fresh reading, received := 0, terminating := false, tracked := false, timers := []
    closing := 0, waiting := 0 }

/-- What can happen to a relay: something that the process does, that the caller asks for,
    or that the clock brings. -/
inductive RelayEvent where
  /-- The process runs. -/
  | spawned
  /-- The process could not be started or be signalled. -/
  | childError (error : Value)
  | output (chunk : String)
  | outputEnd
  | outputError (error : Value)
  | inputError (error : Value)
  | exit (e : Exit)
  /-- The handle comes to hold a status or a signal, or neither, before the end is reported. -/
  | mark (marked : Bool)
  /-- From now on writes to the process meet this error, or succeed. -/
  | failWrites (error : Option Value)
  /-- From now on the process takes its time over a write, or takes it at once. -/
  | stall (stalled : Bool)
  /-- The process has taken the text under way, or the write meets its error. -/
  | taken
  | read
  /-- The caller stops reading for now. -/
  | pause
  /-- The caller takes the next chunk that waits, and reads no further. -/
  | readNext
  | write (text : String)
  | endWrites (text : Option String)
  | kill (signal : Signal)
  | wait
  | close
  /-- The caller gives the stream up, perhaps because of an error with this message. -/
  | destroy (message : Option String)
  /-- The next timer is due. -/
  | timer
  /-- Time passes, at most until the next timer is due. -/
  | pass (ms : Rat)
  /-- The program itself ends. -/
  | programEnd

/-- What a relay does to its process. -/
inductive ChildCall where
  | write (text : String)
  | endInput
  | destroyInput
  | destroyOutput
  | pauseOutput
  | signal (s : Signal)
  deriving DecidableEq, Repr, Inhabited

/-- What a relay tells its caller. -/
inductive Notice where
  | data (chunk : String)
  /-- All output has been delivered. -/
  | ended
  | written
  | writeFailed (why : Refusal)
  /-- The answer to a wait. -/
  | waited (e : Exit)
  /-- The answer to a close. -/
  | closed (e : Exit)
  /-- The stream was destroyed because of an error. -/
  | streamError (why : Refusal)
  /-- The stream is destroyed. -/
  | streamClosed

/-- Is it news of the stream's destruction? That comes last of all that one event brings. -/
def Notice.isLate : Notice → Bool
  | .streamError _ => true
  | .streamClosed => true
  | _ => false

/-- What one event makes a relay put out. -/
inductive Output where
  | call (c : ChildCall)
  | notice (n : Notice)
  | log (e : Log.Entry)

namespace Output

/-- The signal that is sent, if one is. -/
def signal? : Output → Option Signal
  | .call (.signal s) => some s
  | _ => none

/-- Is it news of the stream's destruction? -/
def isLate : Output → Bool
  | .notice n => n.isLate
  | _ => false

/-- News of the stream's destruction moved to the end, all else in order. -/
def settle (outputs : List Output) : List Output :=
  outputs.filter (!·.isLate) ++ outputs.filter (·.isLate)

/-- What is done to the process. -/
def calls (outputs : List Output) : List ChildCall :=
  outputs.filterMap fun
    | .call c => some c
    | _ => none

/-- What the caller is told. -/
def notices (outputs : List Output) : List Notice :=
  outputs.filterMap fun
    | .notice n => some n
    | _ => none

/-- What is logged. -/
def entries (outputs : List Output) : List Log.Entry :=
  outputs.filterMap fun
    | .log e => some e
    | _ => none

end Output

end SshDial

import SshDial.Connection

/-! # Rehearsals — a transport or a session against fixed surroundings

    The clock stands still while anything is left to do and then comes to the next timer.

    A process has `Habits`: what makes it end.  `Rig.turn` is one turn, that is one event and
    everything that the habits answer to it; `Rig.runOn` lets timer after timer fire until an
    aim is reached, and `Rig.advance` lets a stretch of time pass. -/

namespace SshDial

/-- The number of times that a timer and the ones that follow from it fire. -/
def Purpose.stages : Purpose → Nat
  | .closeTerm => 2
  | .closeKill => 1
  | .drop _ => 1

/-- The number of times that timers fire if nothing but that happens. -/
def Relay.stagesLeft (r : Relay) : Nat := r.timers.foldr (fun t n => t.purpose.stages + n) 0

namespace Rehearsal

/-- What makes a process end. -/
structure Habits where
  /-- The end of its input does: it ends its output and then itself, without complaint. -/
  endsWithInput : Bool
  /-- These signals do. -/
  heeds : List Signal
  deriving Inhabited

/-- What a process does about something that a relay puts out. -/
def Habits.reactions (h : Habits) : Output → List RelayEvent
  | .call .endInput => if h.endsWithInput then [.outputEnd, .exit ⟨some 0, none⟩] else []
  | .call (.signal s) => if h.heeds.contains s then [.exit ⟨none, some s⟩] else []
  | _ => []

/-- What a rehearsal has to know of a machine that may have a relay inside. -/
structure Rig (σ ω : Type) where
  /-- An event for the relay. -/
  feed : RelayEvent → σ → σ × List ω
  /-- The relay, if there is one. -/
  relay? : σ → Option Relay
  /-- What the relay puts out. -/
  output? : ω → Option Output

/-- A transport as a machine with a relay inside. -/
def Rig.transport : Rig Transport TransportOutput where
  feed e t := t.step (.proxy e)
  relay? := Transport.relay?
  output? := TransportOutput.relay?

/-- A session as a machine with a relay inside. -/
def Rig.connection : Rig Connection ConnectionOutput where
  feed e c := c.step (.transport (.proxy e))
  relay? c := c.transport.relay?
  output? := ConnectionOutput.relay?

namespace Rig

variable {σ ω : Type} (rig : Rig σ ω)

/-- The time when the next timer is due. -/
def nextDue (s : σ) : Option Rat := (rig.relay? s).bind (·.nextDue)

/-- The time on the clock. -/
def now (s : σ) : Rat := ((rig.relay? s).map (·.now)).getD 0

/-- The number of times that timers fire if nothing but that happens. -/
def stagesLeft (s : σ) : Nat := ((rig.relay? s).map (·.stagesLeft)).getD 0

/-- What a process does of its own accord, each thing in a turn of its own. -/
def react : List RelayEvent → σ → σ × List ω
  | [], s => (s, [])
  | e :: events, s =>
    let (s, outputs) := rig.feed e s
    let (s, more) := react events s
    (s, outputs ++ more)

/-- Something has been done, and the process answers to it.  What it does comes after
    everything that has been done, news of a stream's destruction included. -/
def turn (h : Habits) (done : σ × List ω) : σ × List ω :=
  let (s, more) := rig.react ((done.2.filterMap rig.output?).flatMap h.reactions) done.1
  (s, done.2 ++ more)

/-- The turn of the next timer. -/
def fire (h : Habits) (s : σ) : σ × List ω := rig.turn h (rig.feed .timer s)

/-- Lets timers fire, so many at most, until an aim is reached or none is armed. -/
def fireWhile (h : Habits) (goOn : σ → List ω → Bool) : Nat → σ × List ω → σ × List ω
  | 0, done => done
  | n + 1, (s, outputs) =>
    if goOn s outputs && (rig.nextDue s).isSome then
      let (s, more) := rig.fire h s
      fireWhile h goOn n (s, outputs ++ more)
    else (s, outputs)

/-- Lets timers fire until an aim is reached or none is armed. -/
def runOn (h : Habits) (isReached : σ → List ω → Bool) (done : σ × List ω) : σ × List ω :=
  rig.fireWhile h (fun s outputs => !isReached s outputs) (rig.stagesLeft done.1) done

/-- Lets a stretch of time pass, with the timers that become due. -/
def advance (h : Habits) (ms : Rat) (s : σ) : σ × List ω :=
  let goal := ((rig.relay? s).map (·.timeAfter ms)).getD 0
  let (s, outputs) :=
    rig.fireWhile h (fun s _ => (rig.nextDue s).any (· ≤ goal)) (rig.stagesLeft s) (s, [])
  let (s, more) := rig.feed (.pass (goal - rig.now s)) s
  (s, outputs ++ more)

end Rig

end Rehearsal

end SshDial

import SshDial.Rehearsal.Basic

/-! # Plays — a proxy command rehearsed cue by cue

    A play begins with a process that has been asked for, or with the refusal to start one,
    and says what each cue brings about. -/

namespace SshDial.Rehearsal

/-- What a rehearsal goes on with. -/
inductive Cue where
  | event (e : RelayEvent)
  /-- A stretch of time passes, in milliseconds. -/
  | advance (ms : Rat)

/-- Is the cue the caller's? All others are the process's or the clock's. -/
def Cue.isCaller : Cue → Bool
  | .event (.write _) => true
  | .event (.endWrites _) => true
  | .event (.kill _) => true
  | .event .wait => true
  | .event .close => true
  | .event (.destroy _) => true
  | .event .read => true
  | .event .pause => true
  | .event .readNext => true
  | _ => false

/-- What a cue is answered at once. -/
inductive Reply where
  /-- There is no process. -/
  | noChild
  /-- The caller has no stream yet. -/
  | noStream
  /-- Was a signal sent? -/
  | signalled (sent : Bool)
  deriving DecidableEq, Inhabited

/-- News of a launch. -/
inductive News where
  | launched
  | failed (why : Refusal)
  deriving Inhabited

/-- What one cue has brought about. -/
structure Scene where
  reply : Option Reply := none
  news : Option News := none
  outputs : List TransportOutput := []
  deriving Inhabited

/-- A proxy command being rehearsed. -/
structure Play where
  habits : Habits
  /-- Does the caller read as soon as it has the stream? -/
  consumes : Bool
  /-- The launch, unless there is no process to launch. -/
  launch : Option Launch
  deriving Inhabited

namespace Play

/-- The launch as a transport. -/
def rig : Rig Launch TransportOutput where
  feed e l := ((l.step e).1, (l.step e).2.map .relay)
  relay? l := some l.relay
  output? := TransportOutput.relay?

/-- Does the caller have the stream? -/
def isLaunched (l : Launch) : Bool :=
  match l.phase with
  | .launched => true
  | _ => false

/-- A play that begins with a stream over a process that has just been asked for. -/
def ofRelay (habits : Habits) (consumes : Bool) (relay : Relay) : Play :=
  ⟨habits, consumes, some ⟨.launched, relay⟩⟩

/-- A play that begins with the launch of a command. -/
def launching (habits : Habits) (consumes : Bool) (command : String) (options : LaunchOptions)
    (asked : Except Value Handle) : Play × Scene :=
  let outputs := [.log (Launch.startEntry command), .spawn command options]
  match Launch.ofAnswer command options 0 asked with
  | .ok launch => (⟨habits, consumes, some launch⟩, { outputs })
  | .error why => (⟨habits, consumes, none⟩, { news := some (.failed why), outputs })

/-- What a cue brings about by itself. -/
def perform (habits : Habits) (l : Launch) : Cue → Launch × List TransportOutput
  | .event e => rig.turn habits (rig.feed e l)
  | .advance ms => rig.advance habits ms l

/-- The news that a launch has come from one phase to another. -/
def news : Launch.Phase → Launch.Phase → Option News
  | .waiting, .launched => some .launched
  | .waiting, .failed why => some (.failed (.failure why))
  | _, _ => none

/-- What the caller cannot see yet is left out. -/
def withoutNotices (outputs : List TransportOutput) : List TransportOutput :=
  outputs.filter fun
    | .relay (.notice _) => false
    | _ => true

/-- What the caller is answered at once. -/
def reply (l : Launch) : Cue → Option Reply
  | .event (.kill _) => some (.signalled l.relay.canSignal)
  | _ => none

/-- One cue. A caller that has just been given the stream begins to read if it means to. -/
def step (p : Play) (cue : Cue) : Play × Scene :=
  match p.launch with
  | none => (p, { reply := some (if cue.isCaller then .noStream else .noChild) })
  | some l =>
    if cue.isCaller && !isLaunched l then (p, { reply := some .noStream })
    else
      let reply := reply l cue
      let (after, outputs) := perform p.habits l cue
      let news := news l.phase after.phase
      if isLaunched l then ({ p with launch := some after }, { reply, news, outputs })
      else if isLaunched after && p.consumes then
        let (reading, more) := perform p.habits after (.event .read)
        ({ p with launch := some reading },
          { reply, news, outputs := withoutNotices outputs ++ more })
      else ({ p with launch := some after }, { reply, news, outputs := withoutNotices outputs })

/-- Some cues, one after the other: after each of them the play as it stands and what was
    brought about. -/
def run (p : Play) : List Cue → List (Play × Scene)
  | [] => []
  | cue :: cues => p.step cue :: run (p.step cue).1 cues

/-- The stream's transport, once the caller has it. -/
def transport? (p : Play) : Option Transport := (p.launch.filter isLaunched).map .proxy

/-- The time on the clock. -/
def now (p : Play) : Rat := (p.launch.map (·.relay.now)).getD 0

end Play

end SshDial.Rehearsal

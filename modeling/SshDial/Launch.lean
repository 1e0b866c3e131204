import SshDial.Relay.Step

/-! # Launches — starting a proxy command

    A launch waits for the first word from the process, that it runs or that it could not be
    started, and settles once.  It needs pipes to the process to begin with. -/

namespace SshDial

/-- The shell that a command is run with. -/
inductive Shell where
  | platform
  | none
  | named (path : String)
  deriving DecidableEq, Repr, Inhabited

/-- How a command is run. -/
structure LaunchOptions where
  shell : Shell := .platform
  env : Option (List (String × String)) := Option.none
  directory : Option String := Option.none
  /-- How long to wait for the process before the next, stronger step, in milliseconds. Any number will
  do; it is not checked. -/
  patience : Number := .finite Relay.defaultPatience
  deriving DecidableEq, Inhabited

/-- The handle to a process that the system gives out when it is asked for one. -/
structure Handle where
  /-- Its number. One that could not be started has none. -/
  pid : Option Int
  /-- Are there pipes to it? A process that could not be started for want of descriptors has none. -/
  piped : Bool := true
  deriving DecidableEq, Repr, Inhabited

/-- How far a launch has come. -/
inductive Launch.Phase where
  | waiting
  | launched
  | failed (why : Failure)
  deriving Inhabited

/-- A launch and the relay over the process that was asked for. -/
structure Launch where
  phase : Launch.Phase
  relay : Relay
  deriving Inhabited

namespace Launch

/-- The entry about the start of a command. -/
def startEntry (command : String) : Log.Entry := .plain .debug ("Launching proxy command: " ++ command)

/-- The entry about a process that runs. -/
def runningEntry (r : Relay) : Log.Entry :=
  .withFields .debug "Proxy command running" [Relay.pidField r]

/-- What comes of a launch whose process could not even be asked for.  What was thrown is put
    into the message, if it can be. -/
def refused (thrown : Value) : Refusal :=
  if thrown.isShowable then
    .failure (.spawn ("Failed to start proxy command: " ++ thrown.reason) { cause := thrown } none)
  else .unshowable

/-- The failure of a launch whose process could not be started. -/
def failure (error : Value) : Failure :=
  .spawn ("Failed to start proxy command: " ++ error.reason) { cause := error }
    (if error.errorCode? = some "ENOENT" then
      some "Check that the shell used to run ProxyCommand exists"
    else none)

/-- What comes of listening to the output of a process without pipes. -/
def unpiped : Refusal := .thrown "TypeError" "Cannot read properties of undefined (reading 'on')"

/-- A launch whose process has just been asked for. Nobody reads yet. -/
def start (command : String) (options : LaunchOptions) (now : Rat) (pid : Option Int) : Launch :=
  ⟨.waiting, .fresh command (Timer.span options.patience) now pid false⟩

/-- Begins a launch.  `asked` is what the system answers when it is asked for a process: a
    handle, or what is thrown.  A relay needs pipes to its process, and there is no launch
    without one. -/
def ofAnswer (command : String) (options : LaunchOptions) (now : Rat) (asked : Except Value Handle) :
    Except Refusal Launch :=
  match asked with
  | .error thrown => .error (refused thrown)
  | .ok handle =>
    if handle.piped then .ok (start command options now handle.pid) else .error unpiped

/-- What an event makes of a launch that waits. A failed launch gives its relay up. -/
def settle (l : Launch) : RelayEvent → Launch × List Output
  | .spawned => (⟨.launched, l.relay⟩, [.log (runningEntry l.relay)])
  | .childError error =>
    let (relay, outputs) := Relay.destroy none l.relay
    (⟨.failed (failure error), relay⟩, outputs)
  | _ => (l, [])

/-- What a launch does on an event: the relay comes first, then the launch. -/
def step (l : Launch) (e : RelayEvent) : Launch × List Output :=
  let (relay, outputs) := l.relay.step e
  match l.phase with
  | .waiting =>
    let (l, more) := settle ⟨.waiting, relay⟩ e
    (l, outputs ++ more)
  | phase => (⟨phase, relay⟩, outputs)

/-- What a launch does on some events, one after the other. -/
def run (l : Launch) : List RelayEvent → Launch × List Output
  | [] => (l, [])
  | e :: events =>
    (((l.step e).1.run events).1, (l.step e).2 ++ ((l.step e).1.run events).2)

end Launch

end SshDial

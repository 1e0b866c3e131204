import SshDial.Relay.Basic

/-! # The rules of a relay — what it does on each event

    Every rule is an `Act`, a change of the state with what it puts out, and rules are put
    together by `Act.andThen`.  `Relay.step` answers one event and `Relay.run` a list of them. -/

namespace SshDial

/-- A change of a relay and what it puts out. -/
abbrev Act := Relay → Relay × List Output

namespace Act

/-- No change. -/
def skip : Act := fun r => (r, [])

/-- A change that puts nothing out. -/
def modify (f : Relay → Relay) : Act := fun r => (f r, [])

/-- Puts something out. -/
def emit (outputs : List Output) : Act := fun r => (r, outputs)

/-- One change after the other. -/
def andThen (a b : Act) : Act := fun r =>
  ((b (a r).1).1, (a r).2 ++ (b (a r).1).2)

/-- A change that depends on the state. -/
def reading (f : Relay → Act) : Act := fun r => f r r

/-- A change made only in some states. -/
def when (condition : Relay → Bool) (a : Act) : Act := fun r => if condition r then a r else (r, [])

end Act

namespace Relay

open Act

/-- The failure of one of the pipes to the process. -/
def pipeFailure (command : String) (error : Value) : Failure :=
  let code := error.errorCode?.filter (· ≠ "")
  .io
    ("Proxy command pipe failed" ++ (code.map fun c => " (" ++ c ++ ")").getD "" ++ ": " ++ error.reason)
    { cause := error }
    (if code = some "EPIPE" then
      some ("The proxy command \"" ++ command ++ "\" stopped reading its input")
    else none)

/-- The failure of a process that runs. -/
def childFailure (error : Value) : Failure :=
  .io ("Proxy command failed: " ++ error.reason) { cause := error } none

/-- The statuses with which a shell says that it could not run the command. -/
def isLaunchFailure (code : Int) : Bool := code == 126 || code == 127

/-- The failure of a command that the shell could not run. -/
def launchFailure (code : Int) (e : Exit) : Failure :=
  .spawn ("Proxy command could not be started (exit status " ++ toString code ++ ")")
    { exitCode := some e.code, signal := some e.signal }
    (some "Check that the command in ProxyCommand exists and is executable")

/-- Writing after the end of writing. -/
def writeAfterEnd : Refusal := .thrown "Error" "write after end"

/-- Writing to a stream that is gone. -/
def writeAfterDestroy : Refusal := .thrown "Error" "Cannot call write after a stream was destroyed"

/-- The process as a field of a log entry. -/
def pidField (r : Relay) : String × Value :=
  ("pid", match r.child.pid with
    | some pid => .ofInt pid
    | none => .undefined)

/-- An elapsed time as loose data. -/
def timeValue (t : Rat) : Value := .number (Number.nearest t)

/-- Can a signal still reach the process? -/
def canSignal (r : Relay) : Bool := r.child.pid.isSome && r.exit.isNone && !r.child.marked

/-- Sends the process a signal unless it has ended. -/
def sendSignal (s : Signal) : Act :=
  when canSignal <| (modify fun r => { r with terminating := true }).andThen
    (emit [.call (.signal s)])

/-- Marks the relay as given up, unless the process has ended. -/
def markClosed (r : Relay) : Relay :=
  if r.stage = .spawned ∨ r.stage = .running then { r with stage := .closed } else r

/-- Arms a timer for the time when the relay's patience is over. -/
def arm (purpose : Purpose) (r : Relay) : Relay :=
  { r with timers := r.timers ++ [⟨Number.rounded (r.now + r.patience), purpose⟩] }

/-- Has everything gone its way: no error, output ended, input ended? -/
def isOrderly (error : Option Refusal) (r : Relay) : Bool :=
  error.isNone && r.child.outputEnded && r.child.inputEnded

/-- The stream as gone. -/
def markDestroyed (error : Option Refusal) (r : Relay) : Relay :=
  { markClosed r with stream := { r.stream with destroyed := true, fault := error } }

/-- Lets go of both pipes. -/
def dropPipes : Act :=
  (modify fun r => { r with child := { r.child with inputDestroyed := true, outputDestroyed := true } })
    |>.andThen (emit [.call .destroyInput, .call .destroyOutput])

/-- Sees to it that the process gets a signal if it is still there when patience is over. -/
def reapLater (signal : Signal) : Act := when (·.exit.isNone) (modify (arm (.drop signal)))

/-- Gives the stream up, once.  A process that has not come to an orderly end is asked to
    stop at once and stopped for good later. -/
def destroy (error : Option Refusal) : Act :=
  when (!·.stream.destroyed) <| reading fun r =>
    let orderly := isOrderly error r
    (modify (markDestroyed error)).andThen <|
    (if orderly then skip else sendSignal .term).andThen <|
    dropPipes.andThen <|
    (reapLater (if orderly then .term else .kill)).andThen <|
    emit ((error.map fun e => .notice (.streamError e)).toList ++ [.notice .streamClosed])

/-- Ends the process's input unless that has been done. -/
def endInput : Act :=
  when (fun r => !r.child.inputDestroyed && !r.child.inputEnded) <|
    (modify fun r => { r with child := { r.child with inputEnded := true } }).andThen
      (emit [.call .endInput])

/-- Gives the stream up once both directions are through. -/
def destroyIfThrough : Act :=
  when (fun r => r.stream.endShown && r.stream.finished) (destroy none)

/-- Delivers the chunks that wait. -/
def deliver : Act := fun r =>
  ({ r with stream := { r.stream with queue := [] } },
    r.stream.queue.map fun chunk => .notice (.data chunk))

/-- Tells a caller that has read everything of the end of the output. -/
def announceEnd : Act :=
  when (fun r => r.child.outputEnded && !r.stream.endShown && !r.stream.destroyed) <|
    (modify fun r => { r with stream := { r.stream with endShown := true } }).andThen <|
    (emit [.notice .ended]).andThen destroyIfThrough

/-- Tells a reading caller of the end of the output, when all of it has been delivered. -/
def showEnd : Act := when (·.stream.reading) announceEnd

/-- Passes a chunk on to a reading caller, or keeps it and asks the process to pause when
    too much is kept.  An empty chunk is not passed on. -/
def accept (chunk : String) : Act := reading fun r =>
  let kept := if chunk = "" then r.stream.queue else r.stream.queue ++ [chunk]
  let received := r.received + chunk.utf8ByteSize
  if r.stream.reading then
    (modify fun r => { r with received }).andThen
      (emit (if chunk = "" then [] else [.notice (.data chunk)]))
  else
    (modify fun r => { r with received, stream := { r.stream with queue := kept } }).andThen <|
    when (fun r => Stream.highWater ≤ r.stream.queued) (emit [.call .pauseOutput])

/-- Can the process's output still bring anything? -/
def outputOpen (r : Relay) : Bool := !r.child.outputEnded && !r.child.outputDestroyed

/-- The output has ended. -/
def endOutput : Act :=
  (modify fun r => markClosed { r with child := { r.child with outputEnded := true } }).andThen showEnd

/-- The entry about the end of a process; an end that this side did not ask for is a warning
    unless all went well. -/
def exitEntry (r : Relay) (e : Exit) : Log.Entry :=
  let unexpected := e.code != some 0 && !r.terminating
  .withFields (if unexpected then .warn else .debug)
    ((if unexpected then "Proxy command exited abnormally: " else "Proxy command exited: ") ++ r.command)
    [("code", match e.code with
        | some code => .ofInt code
        | none => .null),
      ("signal", match e.signal with
        | some s => .text s
        | none => .null),
      ("durationMs", timeValue (r.now - r.born))]

/-- The failure that the end of a process gives away: a shell that could not run the command
    ends with one of its own statuses and puts nothing out. -/
def exitFailure (r : Relay) (e : Exit) : Option Failure :=
  match e.code with
  | some code =>
    if r.received = 0 && isLaunchFailure code then some (launchFailure code e) else none
  | none => none

/-- Answers the callers that wait for the end of the process, disarms all timers, and
    finishes the closes that are under way. -/
def answerWaiters (e : Exit) : Act := reading fun r =>
  let closes := r.closing + (r.timers.filter (·.purpose.isClose)).length
  (modify fun r => { r with timers := [], waiting := 0, closing := 0 }).andThen <|
  (emit (List.replicate r.waiting (.notice (.waited e)))).andThen <|
  (if closes = 0 then skip else destroy none).andThen <|
  emit (List.replicate closes (.notice (.closed e)))

/-- The process has ended. Only the first report of that counts. -/
def childExit (e : Exit) : Act :=
  when (·.exit.isNone) <|
    (modify fun r => { r with exit := some e, stage := .reaped, tracked := false }).andThen <|
    (reading fun r => emit [.log (exitEntry r e)]).andThen <|
    (reading fun r =>
      match exitFailure r e with
      | some f => destroy (some (.failure f))
      | none => skip).andThen <|
    answerWaiters e

/-- The end of the caller's writing, once everything before it has been passed on. -/
def finish : Act :=
  when (fun r => !r.stream.destroyed) <|
    endInput.andThen <|
    (modify fun r => { r with stream := { r.stream with finished := true } }).andThen
      destroyIfThrough

/-- The caller is told what has become of a text, if it is to be told. -/
def report (p : Parcel) (n : Notice) : Act := emit (if p.reported then [.notice n] else [])

/-- The texts that still wait are never passed on. -/
def abandon (why : Refusal) : Act := reading fun r =>
  (modify fun r => { r with stream := { r.stream with backlog := [] } }).andThen <|
  emit ((r.stream.backlog.filter Parcel.reported).map fun _ => .notice (.writeFailed why))

/-- A write has met an error: the stream is destroyed, and the texts behind it are given up. -/
def failWrite (p : Parcel) (error : Value) : Act := reading fun r =>
  let why := Refusal.failure (pipeFailure r.command error)
  (report p (.writeFailed why)).andThen <| (destroy (some why)).andThen <|
  abandon (r.stream.fault.getD why)

/-- The process is handed the first of the texts that wait; `later` are the others.  If it
    takes its time, the text is under way from now on. -/
def handOver (p : Parcel) (later : List Parcel) : Act :=
  (modify fun r => { r with stream := { r.stream with
    backlog := later, underway := if r.child.stalled then some p else none } }).andThen
    (emit [.call (.write p.text)])

/-- The end of the caller's writing is passed on, if it has come and nothing is left before it. -/
def finishIfDue : Act := when (fun r => r.stream.ending && r.stream.isIdle) finish

/-- Passes the texts that wait on to the process, one after the other, as long as it takes
    them at once. -/
def passOn : List Parcel → Act
  | [] => finishIfDue
  | p :: later => (handOver p later).andThen <| reading fun r =>
    if r.stream.underway.isSome then skip
    else
      match r.child.writeError with
      | none => (report p .written).andThen (passOn later)
      | some error => failWrite p error

/-- Passes on what waits. -/
def passWaiting : Act := reading fun r => passOn r.stream.backlog

/-- A text is added to those that wait, and passed on unless there is one under way. -/
def submit (p : Parcel) : Act :=
  (modify fun r => { r with stream := { r.stream with backlog := r.stream.backlog ++ [p] } }).andThen <|
  when (·.stream.underway.isNone) passWaiting

/-- What follows on a write that succeeded: the next text, unless the stream is gone. -/
def goOn : Act := reading fun r =>
  if r.stream.destroyed then abandon (r.stream.fault.getD writeAfterDestroy) else passWaiting

/-- The process is done with the text under way. -/
def writeTaken : Act := reading fun r =>
  match r.stream.underway with
  | none => skip
  | some p =>
    (modify fun r => { r with stream := { r.stream with underway := none } }).andThen <|
      match r.child.writeError with
      | none => (report p .written).andThen goOn
      | some error => failWrite p error

/-- The caller writes. -/
def write (text : String) : Act := reading fun r =>
  if r.stream.ending then
    (emit [.notice (.writeFailed writeAfterEnd)]).andThen (destroy (some writeAfterEnd))
  else if r.stream.destroyed then emit [.notice (.writeFailed writeAfterDestroy)]
  else submit ⟨text, true⟩

/-- The caller's writing ends, unless it has ended or an error was in the way. -/
def endWrites : Act :=
  when (fun r => !r.stream.ending && !r.stream.errored) <|
    (modify fun r => { r with stream := { r.stream with ending := true } }).andThen finishIfDue

/-- The caller ends its writing with a last text.  Its failure is not reported as that of a
    write, but destroys the stream all the same. -/
def endWritesWith (text : String) : Act := reading fun r =>
  if r.stream.ending then destroy (some writeAfterEnd)
  else if r.stream.destroyed then skip
  else
    (modify fun r => { r with stream := { r.stream with ending := true } }).andThen
      (submit ⟨text, false⟩)

/-- The caller begins to read. -/
def beginReading : Act :=
  when (!·.stream.destroyed) <|
    (modify fun r => { r with stream := { r.stream with reading := true } }).andThen <|
    deliver.andThen showEnd

/-- The caller stops reading for now. -/
def pauseReading : Act := modify fun r => { r with stream := { r.stream with reading := false } }

/-- The caller takes the next chunk that waits. -/
def readNext : Act :=
  when (!·.stream.destroyed) <|
    (reading fun r => emit ((r.stream.queue.take 1).map fun chunk => .notice (.data chunk))).andThen <|
    (modify fun r => { r with stream := { r.stream with queue := r.stream.queue.drop 1 } }).andThen <|
    when (·.stream.queue.isEmpty) announceEnd

/-- A close waits for the process to end; if it has ended already, the stream is given up. -/
def awaitExit : Act := reading fun r =>
  match r.exit with
  | some e => (destroy none).andThen (emit [.notice (.closed e)])
  | none => modify (arm .closeTerm)

/-- The caller closes in order: the input is ended, and the process has until patience is
    over to end. -/
def close : Act := (modify markClosed).andThen (endInput.andThen awaitExit)

/-- A timer is due. -/
def fire : Purpose → Act
  | .closeTerm => reading fun r =>
    (emit [.log (.withFields .debug "Proxy command still running after stdin closed; sending SIGTERM"
      [pidField r])]).andThen <|
    (sendSignal .term).andThen (modify (arm .closeKill))
  | .closeKill => reading fun r =>
    (emit [.log (.withFields .warn "Proxy command ignored SIGTERM; sending SIGKILL" [pidField r])]).andThen <|
    (sendSignal .kill).andThen (modify fun r => { r with closing := r.closing + 1 })
  | .drop signal => sendSignal signal

/-- The timer that is due first, of equally early ones the one armed first. -/
def nextTimer (timers : List Timer) : Option Timer :=
  timers.foldl (fun best t =>
    match best with
    | none => some t
    | some b => if t.due < b.due then some t else some b) none

/-- The time when the next timer is due. -/
def nextDue (r : Relay) : Option Rat := (nextTimer r.timers).map (·.due)

/-- The later of two times. -/
def later (a b : Rat) : Rat := if a ≤ b then b else a

/-- The clock comes to the next timer, which fires. -/
def fireNext : Act := reading fun r =>
  match nextTimer r.timers with
  | none => skip
  | some t =>
    (modify fun r => { r with now := later r.now t.due, timers := r.timers.erase t }).andThen
      (fire t.purpose)

/-- The time on the clock when so many milliseconds have passed.  The clock holds numbers of
    the 64-bit format and never goes back. -/
def timeAfter (r : Relay) (ms : Rat) : Rat := later r.now (Number.rounded (r.now + ms))

/-- Time passes, at most until the next timer is due. -/
def passTime (ms : Rat) (r : Relay) : Relay :=
  let goal := r.timeAfter ms
  { r with now := match r.nextDue with
    | some due => later r.now (if goal ≤ due then goal else due)
    | none => goal }

/-- What a relay does on an event, before the news of destruction is put last. -/
def act : RelayEvent → Act
  | .spawned =>
    when (·.stage = .spawned) (modify fun r => { r with stage := .running, tracked := true })
  | .childError error =>
    when (·.stage ≠ .spawned) (destroy (some (.failure (childFailure error))))
  | .output chunk => when outputOpen (accept chunk)
  | .outputEnd => when outputOpen endOutput
  | .outputError error =>
    when outputOpen <| reading fun r => destroy (some (.failure (pipeFailure r.command error)))
  | .inputError error =>
    when (!·.child.inputDestroyed) <| reading fun r =>
      destroy (some (.failure (pipeFailure r.command error)))
  | .exit e => childExit e
  | .mark marked => modify fun r => { r with child := { r.child with marked } }
  | .failWrites error => modify fun r => { r with child := { r.child with writeError := error } }
  | .stall stalled => modify fun r => { r with child := { r.child with stalled } }
  | .taken => writeTaken
  | .read => beginReading
  | .pause => pauseReading
  | .readNext => readNext
  | .write text => write text
  | .endWrites none => endWrites
  | .endWrites (some text) => endWritesWith text
  | .kill signal => sendSignal signal
  | .wait => reading fun r =>
    match r.exit with
    | some e => emit [.notice (.waited e)]
    | none => modify fun r => { r with waiting := r.waiting + 1 }
  | .close => close
  | .destroy message => destroy (message.map (.thrown "Error"))
  | .timer => fireNext
  | .pass ms => modify (passTime ms)
  | .programEnd => when (·.tracked) (sendSignal .kill)

/-- What a relay does on an event. -/
def step (r : Relay) (e : RelayEvent) : Relay × List Output := ((act e r).1, Output.settle (act e r).2)

/-- What a relay does on some events, one after the other. -/
def run (r : Relay) : List RelayEvent → Relay × List Output
  | [] => (r, [])
  | e :: events =>
    (((r.step e).1.run events).1, (r.step e).2 ++ ((r.step e).1.run events).2)

end Relay

end SshDial

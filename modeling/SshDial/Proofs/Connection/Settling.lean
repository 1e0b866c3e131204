import SshDial.Proofs.Connection.Transport
import SshDial.Proofs.Relay.Life

/-! # Settling — the first word decides, and what is left when it has been heard

    Several things can end the opening of a transport: a socket connects, fails or runs out
    of time, and a process runs or could not be started.  Whatever else comes, in whatever
    order and however often, the first of them decides, and the others find nothing to act
    upon.

    For a dial this is `Dial.run_start_of_first`.  A connected dial does nothing any more
    (`Dial.AtRest`), so what happens to the socket from then on is its user's business; one
    that was given up stays given up (`Dial.GivenUp`).

    For a launch it is `Transport.run_command_of_first`; a process without pipes never comes
    to say its first word.  The relay hears every event before
    the launch does, so the launch may find it closed or destroyed already; what is used of
    it is that it never goes back (`Relay.Onward`). -/

namespace SshDial

/-! ## Dials -/

namespace Dial

variable {d : Dial} {message : String} {cause : Value}

/-- The dial is given up and says why: no time is watched any more, and no socket is left. -/
structure GivenUp (d : Dial) (message : String) (cause : Value) : Prop where
  failed : ∃ f, d.phase = .failed f ∧ f.code = .connection ∧ f.message = message
    ∧ f.details.cause = cause
  timer : d.timer = none
  destroyed : d.destroyed = true

/-- The dial has connected and is done: no time is watched, and nothing of the socket is
    listened for. -/
structure AtRest (d : Dial) : Prop where
  connected : d.phase = .connected
  timer : d.timer = none
  awaitsConnect : d.awaitsConnect = false
  awaitsError : d.awaitsError = false

theorem AtRest.step (h : d.AtRest) (e : DialEvent) : d.step e = (d, []) := by
  cases e with
  | connected =>
      rw [Dial.step, h.awaitsConnect]
      rfl
  | failed error =>
      rw [Dial.step, h.awaitsError]
      rfl
  | timeout => rw [Dial.step, h.timer]

/-- **A connected socket is left alone**, whatever comes. -/
theorem AtRest.run (h : d.AtRest) (events : List DialEvent) : d.run events = (d, []) := by
  induction events with
  | nil => rfl
  | cons e events ih => rw [Dial.run, h.step e, ih, List.append_nil]

/-- Only the first reason counts. -/
theorem GivenUp.step (h : d.GivenUp message cause) (e : DialEvent) :
    (d.step e).1.GivenUp message cause := by
  obtain ⟨⟨f, hphase, hf⟩, htimer, hgone⟩ := h
  have hfailed : (d.step e).1.phase = .failed f := (d.step_spec e).2.2 f hphase
  have hdestroyed : (d.step e).1.destroyed = true := (d.step_spec e).1 hgone
  refine ⟨⟨f, hfailed, hf⟩, ?_, hdestroyed⟩
  cases e with
  | connected =>
      rw [Dial.step]
      split
      · rfl
      · exact htimer
  | failed error =>
      rw [Dial.step]
      split
      · rfl
      · exact htimer
  | timeout =>
      rw [Dial.step, htimer]
      exact htimer

theorem GivenUp.run (h : d.GivenUp message cause) (events : List DialEvent) :
    (d.run events).1.GivenUp message cause := by
  induction events generalizing d with
  | nil => exact h
  | cons e events ih => exact ih (h.step e)

variable (host : String) (port : Number) (timeout : Option Number)

end Dial

/-! ## Launches -/

/-- What a process says of its start, if an event is that: it runs, or there was an error. -/
def RelayEvent.word? : RelayEvent → Option (Except Value Unit)
  | .spawned => some (.ok ())
  | .childError error => some (.error error)
  | _ => none

namespace Relay

variable {r : Relay}

/-- A process that runs has left the first stage behind. -/
theorem stage_spawned (r : Relay) : (r.step .spawned).1.stage ≠ .spawned := by
  show (act .spawned r).1.stage ≠ .spawned
  rw [act, Act.when]
  split
  · intro h
    cases h
  · rename_i hstage
    intro h
    exact hstage (decide_eq_true h)

/-- The first stage does not come back. -/
theorem stage_step_ne (h : r.stage ≠ .spawned) (e : RelayEvent) :
    (r.step e).1.stage ≠ .spawned := by
  have hrank : r.stage.rank ≤ (r.step e).1.stage.rank := (goesOn_act e r).1.rank
  intro hback
  rw [hback] at hrank
  cases hstage : r.stage with
  | spawned => exact h hstage
  | running => exact absurd (hstage ▸ hrank) (by decide)
  | closed => exact absurd (hstage ▸ hrank) (by decide)
  | reaped => exact absurd (hstage ▸ hrank) (by decide)

theorem act_childError (h : r.stage ≠ .spawned) (error : Value) :
    act (.childError error) r = destroy (some (.failure (childFailure error))) r :=
  if_pos (decide_eq_true h)

end Relay

namespace Launch

variable {l : Launch}

/-- The phase that a process's word leads to. -/
def Phase.ofWord : Option (Except Value Unit) → Phase
  | none => .waiting
  | some (.ok ()) => .launched
  | some (.error error) => .failed (failure error)

/-- What is known of a launch that has heard the word, or none so far. -/
structure Heard (l : Launch) (word : Option (Except Value Unit)) : Prop where
  sound : l.Sound
  phase : l.phase = .ofWord word
  started : word = some (.ok ()) → l.relay.stage ≠ .spawned

theorem heard_start (command : String) (options : LaunchOptions) (now : Rat) (pid : Option Int) :
    (start command options now pid).Heard none :=
  ⟨sound_start command options now pid, rfl, nofun⟩

/-- **One event at a time.** The first word is kept, and the others are not heard. -/
theorem Heard.step {word : Option (Except Value Unit)} (h : l.Heard word) (e : RelayEvent) :
    (l.step e).1.Heard (word.or e.word?) := by
  have hsound : (l.step e).1.Sound := (l.step_spec e).2.2.1 h.sound
  cases word with
  | none =>
      have hwaiting : l.phase = .waiting := h.phase
      refine ⟨hsound, ?_, fun hword => ?_⟩
      · rw [step_of_waiting hwaiting]
        cases e with
        | spawned => rfl
        | childError error => rfl
        | _ => rfl
      · rw [step_of_waiting hwaiting]
        cases e with
        | spawned => exact Relay.stage_spawned l.relay
        | _ => cases hword
  | some word =>
      have hsettled : l.phase ≠ .waiting := by
        rw [h.phase]
        cases word with
        | ok _ => exact nofun
        | error error => exact nofun
      refine ⟨hsound, ?_, fun hword => ?_⟩
      · rw [step_of_settled hsettled]
        exact h.phase
      · rw [step_of_settled hsettled]
        exact Relay.stage_step_ne (h.started hword) e

theorem Heard.run {word : Option (Except Value Unit)} (h : l.Heard word)
    (events : List RelayEvent) :
    (l.run events).1.Heard (word.or (events.findSome? RelayEvent.word?)) := by
  induction events generalizing l word with
  | nil =>
      rw [List.findSome?_nil, Option.or_none]
      exact h
  | cons e events ih =>
      have hrest := ih (h.step e)
      rw [Option.or_assoc] at hrest
      rw [List.findSome?_cons]
      cases hword : e.word? with
      | none =>
          rw [hword, Option.none_or] at hrest
          exact hrest
      | some first =>
          rw [hword, Option.some_or] at hrest
          exact hrest

/-- The launch has failed over an error, and neither the stream nor a pipe is left. -/
structure Rejected (l : Launch) (error : Value) : Prop where
  failed : ∃ f, l.phase = .failed f ∧ f.code = .spawn
    ∧ f.message = "Failed to start proxy command: " ++ error.reason ∧ f.details.cause = error
  stream : l.relay.stream.destroyed = true
  input : l.relay.child.inputDestroyed = true
  output : l.relay.child.outputDestroyed = true

theorem Heard.rejected {error : Value} (h : l.Heard (some (.error error))) : l.Rejected error := by
  have hgone : l.relay.stream.destroyed = true := h.sound.failed (failure error) h.phase
  exact ⟨⟨failure error, h.phase, rfl, rfl, rfl⟩, hgone, h.sound.tidy.input.trans hgone,
    h.sound.tidy.output.trans hgone⟩

/-- The stream has been given up over an error of the process, and its user is told. -/
structure BrokenOff (r : Relay) (outputs : List Output) (error : Value) : Prop where
  fault : ∃ f, r.stream.fault = some (.failure f) ∧ f.code = .io ∧ f.details.cause = error
    ∧ .notice (.streamError (.failure f)) ∈ outputs
  stream : r.stream.destroyed = true
  input : r.child.inputDestroyed = true
  output : r.child.outputDestroyed = true

/-- An error of a process that was launched ends its stream, and nothing else. -/
theorem Heard.step_childError (h : l.Heard (some (.ok ()))) (error : Value) :
    (l.step (.childError error)).1.phase = .launched
      ∧ if l.relay.stream.destroyed = true then l.step (.childError error) = (l, [])
        else BrokenOff (l.step (.childError error)).1.relay (l.step (.childError error)).2 error := by
  have hsettled : l.phase ≠ .waiting := by
    rw [h.phase]
    exact nofun
  have hact := Relay.act_childError (h.started rfl) error
  refine ⟨((h.step (.childError error)).phase), ?_⟩
  rw [step_of_settled hsettled, Relay.step, hact]
  split
  · rename_i hgone
    rw [Relay.destroy_of_destroyed _ hgone]
    rfl
  · rename_i hopen
    have hopen : l.relay.stream.destroyed = false := Bool.eq_false_iff.mpr hopen
    have hvital := Relay.vital_destroy (some (.failure (Relay.childFailure error))) hopen
    refine ⟨⟨Relay.childFailure error, (congrArg Relay.Vital.fault hvital :), rfl, rfl, ?_⟩,
      (congrArg Relay.Vital.destroyed hvital :), (congrArg Relay.Vital.inputDestroyed hvital :),
      (congrArg Relay.Vital.outputDestroyed hvital :)⟩
    exact Relay.mem_settle.mpr (Relay.streamError_mem_destroy _ hopen)

end Launch

namespace Transport

/-- **The first word of the process decides.** A command for which no process can be asked is
    refused at once, as a failure to start it if what was thrown can be put into a text; and
    so is one whose process has no pipes, with an error from below.  Otherwise the launch
    waits until the process says that it runs or that it could not be started, whatever else
    happens before.  If the first word is an error, the launch fails and leaves neither stream
    nor pipes; if it is that the process runs, the launch succeeds for good, and a later error
    only ends the stream, if it is still there. -/
theorem run_command_of_first (command : String) (options : TransportOptions) :
    (∀ thrown, if thrown.isShowable = true then
        ∃ f, (start (.command command) options (.error thrown)).1 = .error (.failure f)
          ∧ f.code = .spawn ∧ f.message = "Failed to start proxy command: " ++ thrown.reason
          ∧ f.details.cause = thrown
      else (start (.command command) options (.error thrown)).1
        = .error (.thrown "TypeError" "Cannot convert object to primitive value"))
    ∧ (∀ pid, (start (.command command) options (.ok ⟨pid, false⟩)).1
      = .error (.thrown "TypeError" "Cannot read properties of undefined (reading 'on')"))
    ∧ ∀ pid, ∃ first, (start (.command command) options (.ok ⟨pid, true⟩)).1 = .ok (.proxy first)
      ∧ ∀ events : List RelayEvent,
        let l := (first.run events).1
        match events.findSome? RelayEvent.word? with
        | none => l.phase = .waiting
        | some (.error error) => l.Rejected error
        | some (.ok ()) =>
          l.phase = .launched ∧ ∀ error,
            (l.step (.childError error)).1.phase = .launched
              ∧ if l.relay.stream.destroyed = true then l.step (.childError error) = (l, [])
                else Launch.BrokenOff (l.step (.childError error)).1.relay
                  (l.step (.childError error)).2 error := by
  refine ⟨fun thrown => ?_, fun pid => rfl, fun pid =>
    ⟨Launch.start command options.launch 0 pid, rfl, fun events => ?_⟩⟩
  · have hrefused : (start (.command command) options (.error thrown)).1
        = .error (Launch.refused thrown) := rfl
    rw [hrefused, Launch.refused]
    split
    · exact ⟨_, rfl, rfl, rfl, rfl⟩
    · rfl
  have hheard := (Launch.heard_start command options.launch 0 pid).run events
  rw [Option.none_or] at hheard
  cases hword : events.findSome? RelayEvent.word? with
  | none =>
      rw [hword] at hheard
      exact hheard.phase
  | some word =>
      rw [hword] at hheard
      cases word with
      | error error => exact hheard.rejected
      | ok _ => exact ⟨hheard.phase, hheard.step_childError⟩

/-- A process that could not be started for want of descriptors: the launch is refused, and not
    with a failure of the library's own. -/
theorem start_command_unpiped :
    let begun := (start (.command "cat") {} (.ok ⟨none, false⟩)).1
    begun = .error (.thrown "TypeError" "Cannot read properties of undefined (reading 'on')")
      ∧ ¬∃ f : Failure, begun = .error (.failure f) := by
  refine ⟨rfl, ?_⟩
  rintro ⟨f, hfailure⟩
  cases hfailure

end Transport

end SshDial

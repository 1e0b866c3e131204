import SshDial.Proofs.Number.Rounding
import SshDial.Proofs.Relay.Move

/-! # Warning — a process is asked to stop before it is stopped for good

    A close and the destruction of a stream both press the process in two steps, each on its
    own clock, and several of them may be under way at once.

    `Relay.Warned`: whenever a timer that stops the process for good is armed, the process
    has been asked to stop, and the timer is due no earlier than the relay's patience after
    that.  Timers of different closes cannot disturb this, as each carries its own warning.
    `Relay.kill_warned` is what follows for the signals. -/

namespace SshDial

namespace Relay

/-- The signals among some calls, all at one time. -/
def stamped (time : Rat) (calls : List ChildCall) : List (Rat × Signal) :=
  calls.filterMap fun
    | .signal s => some (time, s)
    | _ => none

/-- The signals that a relay sends on an event, each with the time on the clock. -/
def signals (r : Relay) (e : RelayEvent) : List (Rat × Signal) :=
  stamped (r.step e).1.now (Output.calls (r.step e).2)

/-- The signals of a run, each with the time on the clock when it was sent. -/
def sent (r : Relay) : List RelayEvent → List (Rat × Signal)
  | [] => []
  | e :: events => r.signals e ++ (r.step e).1.sent events

theorem mem_stamped {time t : Rat} {s : Signal} {calls : List ChildCall} :
    (t, s) ∈ stamped time calls ↔ t = time ∧ .signal s ∈ calls := by
  rw [stamped, List.mem_filterMap]
  constructor
  · rintro ⟨c, hc, heq⟩
    cases c with
    | signal u =>
        obtain ⟨rfl, rfl⟩ := Prod.mk.inj (Option.some.inj heq)
        exact ⟨rfl, hc⟩
    | _ => exact nomatch heq
  · rintro ⟨rfl, hs⟩
    exact ⟨.signal s, hs, rfl⟩

theorem stamped_append (time : Rat) (calls more : List ChildCall) :
    stamped time (calls ++ more) = stamped time calls ++ stamped time more :=
  List.filterMap_append

theorem signals_eq (r : Relay) (e : RelayEvent) :
    r.signals e = stamped (act e r).1.now (Output.calls (act e r).2) := by
  rw [signals, step, Output.calls_settle]

theorem sent_append (r : Relay) (before after : List RelayEvent) :
    r.sent (before ++ after) = r.sent before ++ (r.run before).1.sent after := by
  induction before generalizing r with
  | nil => rfl
  | cons e before ih =>
      rw [List.cons_append, sent, ih, sent, List.append_assoc]
      rfl

variable {e : RelayEvent} {r : Relay} {a : Act} {past : List ChildCall} {v : Vital}

/-! ## The clock -/

theorem le_later (a b : Rat) : a ≤ later a b ∧ b ≤ later a b := by
  rw [later]
  split_ifs with h
  · exact ⟨h, le_refl b⟩
  · exact ⟨le_refl a, (not_le.mp h).le⟩

theorem fireNext_clock (r : Relay) :
    r.now ≤ (fireNext r).1.now ∧ (fireNext r).1.patience = r.patience
      ∧ ∀ t, nextTimer r.timers = some t → t.due ≤ (fireNext r).1.now := by
  cases hnext : nextTimer r.timers with
  | none =>
      rw [fireNext_of_none hnext]
      exact ⟨le_refl _, rfl, fun t ht => nomatch ht⟩
  | some t =>
      rw [fireNext_of_some hnext]
      have hvital := vital_fire t.purpose (withFired t r)
      have hnow : (fire t.purpose (withFired t r)).1.now = later r.now t.due := by
        refine (congrArg Vital.now hvital :).trans ?_
        split
        · rfl
        · rfl
      have hpatience : (fire t.purpose (withFired t r)).1.patience = r.patience := by
        refine (congrArg Vital.patience hvital :).trans ?_
        split
        · rfl
        · rfl
      rw [hnow, hpatience]
      refine ⟨(le_later _ _).1, rfl, fun u hu => ?_⟩
      obtain rfl := Option.some.inj hu
      exact (le_later _ _).2

theorem passTime_now (ms : Rat) (r : Relay) : r.now ≤ (passTime ms r).now := by
  rw [passTime]
  dsimp only
  cases r.nextDue with
  | some due => exact (le_later _ _).1
  | none => exact (le_later _ _).1

/-- The time and the patience of a relay. -/
def Vital.clock (v : Vital) : Rat × Rat := (v.now, v.patience)

theorem clock_endInput (r : Relay) : (endInput r).1.vital.clock = r.vital.clock := by
  obtain ⟨ended, hended⟩ := exists_vital_endInput r
  rw [hended]
  rfl

/-- The clock stands still, or time is what the event is about; it never goes back, and the
    patience of a relay does not change. -/
theorem clock_move (h : Move e r a) : (a r).1.vital.clock = r.vital.clock
    ∨ (e = .timer ∨ ∃ ms, e = .pass ms) ∧ r.now ≤ (a r).1.now ∧ (a r).1.patience = r.patience := by
  cases h with
  | note hsame => exact Or.inl (congrArg Vital.clock hsame)
  | signal s _ => exact Or.inl (congrArg Vital.clock (vital_sendSignal s r))
  | destroy why hopen _ => exact Or.inl (congrArg Vital.clock (vital_destroy why hopen) :)
  | endInput _ => exact Or.inl (clock_endInput r)
  | endOutput _ _ => exact Or.inl (congrArg Vital.clock (vital_withOutputEnded r) :)
  | fire h => exact Or.inr ⟨Or.inl h, (fireNext_clock r).1, (fireNext_clock r).2.1⟩
  | pass ms h => exact Or.inr ⟨Or.inr ⟨ms, h⟩, passTime_now ms r, rfl⟩
  | _ => exact Or.inl rfl

theorem now_le_move (h : Move e r a) : r.now ≤ (a r).1.now ∧ (a r).1.patience = r.patience := by
  rcases clock_move h with hclock | ⟨-, hnow, hpatience⟩
  · obtain ⟨hnow, hpatience⟩ := Prod.mk.inj hclock
    exact ⟨hnow.symm.le, hpatience⟩
  · exact ⟨hnow, hpatience⟩

/-- The clock of a run never goes back. -/
theorem now_le_run (r : Relay) (events : List RelayEvent) :
    r.now ≤ (r.run events).1.now ∧ (r.run events).1.patience = r.patience := by
  refine run_keeps_moves [] (Q := fun _ => True)
    (P := fun _ s => r.now ≤ s.now ∧ s.patience = r.patience) (fun _ h hs => ?_)
    ⟨le_refl _, rfl⟩ fun _ _ => trivial
  obtain ⟨hnow, hpatience⟩ := now_le_move h
  exact ⟨hs.1.trans hnow, hpatience.trans hs.2⟩

/-! ## Warnings -/

/-- Every armed timer that stops a process for good comes after a warning: the process was
    asked to stop, and the timer is due when patience is over since then, or later. -/
def Warned (past : List (Rat × Signal)) (v : Vital) : Prop :=
  v.reachable = true → ∀ t ∈ v.timers, t.purpose.signal = .kill →
    ∃ s, (s, Signal.term) ∈ past ∧ Number.rounded (s + v.patience) ≤ t.due

/-- More signals and fewer timers do no harm. -/
theorem Warned.grow {past more : List (Rat × Signal)} {v w : Vital} (h : Warned past v)
    (hpast : past ⊆ more) (hreach : w.reachable = true → v.reachable = true)
    (hpatience : w.patience = v.patience)
    (htimers : ∀ t ∈ w.timers, t.purpose.signal = .kill → t ∈ v.timers) : Warned more w := by
  intro hyes t ht hkill
  obtain ⟨s, hs, hdue⟩ := h (hreach hyes) t (htimers t ht hkill) hkill
  exact ⟨s, hpast hs, hpatience ▸ hdue⟩

theorem term_ne_kill : Signal.term ≠ Signal.kill := by decide

/-- The timer that a destruction arms to stop the process for good comes with the
    warning. -/
theorem warned_destroy {before : List (Rat × Signal)} (why : Option Refusal)
    (hopen : r.stream.destroyed = false) (hr : Warned before r.vital) :
    Warned (before ++ stamped r.now (Output.calls (destroy why r).2))
      (destroy why r).1.vital := by
  rw [vital_destroy why hopen, calls_destroy why hopen]
  intro hreach t ht hkill
  have hcan : r.canSignal = true := hreach
  rcases Vital.mem_dropTimers ht with hold | rfl
  · obtain ⟨s, hs, hdue⟩ := hr hreach t hold hkill
    exact ⟨s, List.mem_append_left _ hs, hdue⟩
  · have hlast : lastSignal why r = .kill := hkill
    have horderly : isOrderly why r = false := by
      refine Bool.eq_false_iff.mpr fun horderly => ?_
      rw [lastSignal, if_pos horderly] at hlast
      exact term_ne_kill hlast
    refine ⟨r.now, List.mem_append_right _ (mem_stamped.mpr ⟨rfl, ?_⟩), le_refl _⟩
    rw [horderly, hcan]
    exact List.mem_append_left _ (List.mem_singleton.mpr rfl)

/-- The timer that a close arms to stop the process for good comes with the warning. -/
theorem warned_fireNext {before : List (Rat × Signal)} (hr : Warned before r.vital) :
    Warned (before ++ stamped (fireNext r).1.now (Output.calls (fireNext r).2))
      (fireNext r).1.vital := by
  cases hnext : nextTimer r.timers with
  | none =>
      rw [fireNext_of_none hnext]
      exact hr.grow (List.subset_append_left _ _) id rfl fun _ ht _ => ht
  | some t =>
      rw [fireNext_of_some hnext, calls_fire]
      have hvital := vital_fire t.purpose (withFired t r)
      have hleft : Warned before (withFired t r).vital :=
        hr.grow (List.Subset.refl _) id rfl fun _ hu _ => List.mem_of_mem_erase hu
      by_cases hpurpose : t.purpose = .closeTerm
      · -- The new timer's warning goes out with it; the old timers keep theirs.
        rw [if_pos hpurpose] at hvital
        rw [hvital, hpurpose]
        intro hreach u hu hkill
        have hcan : (withFired t r).canSignal = true := hreach
        rcases Vital.mem_armed hu with hold | rfl
        · obtain ⟨s, hs, hdue⟩ := hleft hreach u hold hkill
          exact ⟨s, List.mem_append_left _ hs, hdue⟩
        · refine ⟨(withFired t r).now, List.mem_append_right _ (mem_stamped.mpr ⟨?_, ?_⟩), le_refl _⟩
          · rw [hpurpose] at hvital
            exact (congrArg Vital.now hvital :).symm
          · rw [hcan]
            exact List.mem_singleton.mpr rfl
      · rw [if_neg hpurpose] at hvital
        rw [hvital]
        exact hleft.grow (List.subset_append_left _ _) id rfl fun _ hu _ => hu

/-- **One move at a time.** Whatever happens, as long as a handle that shows an end keeps
    showing it, no timer stops a process for good that has not been warned. -/
theorem warned_move {before : List (Rat × Signal)} (hmark : e ≠ .mark false) (h : Move e r a)
    (hr : Warned before r.vital) :
    Warned (before ++ stamped (a r).1.now (Output.calls (a r).2)) (a r).1.vital := by
  have hbefore : before ⊆ before ++ stamped (a r).1.now (Output.calls (a r).2) :=
    List.subset_append_left _ _
  cases h with
  | note hsame =>
      refine hr.grow hbefore (fun hreach => ?_) (congrArg Vital.patience hsame :) fun t ht _ => ?_
      · exact (congrArg Vital.reachable hsame :).symm.trans hreach
      · exact (congrArg Vital.timers hsame :) ▸ ht
  | signal s _ =>
      rw [vital_sendSignal]
      exact hr.grow hbefore id rfl fun _ ht _ => ht
  | destroy why hopen _ =>
      have hnow : (destroy why r).1.now = r.now := (congrArg Vital.now (vital_destroy why hopen) :)
      rw [hnow]
      exact warned_destroy why hopen hr
  | endInput _ =>
      obtain ⟨ended, hended⟩ := exists_vital_endInput r
      rw [hended]
      exact hr.grow hbefore id rfl fun _ ht _ => ht
  | await _ _ =>
      refine hr.grow hbefore id rfl fun t ht hkill => ?_
      rcases Vital.mem_armed (v := r.vital) ht with hold | rfl
      · exact hold
      · exact absurd hkill term_ne_kill
  | endOutput _ _ =>
      have hvital := vital_withOutputEnded r
      refine hr.grow hbefore (fun hreach => ?_) (congrArg Vital.patience hvital :) fun t ht _ => ?_
      · exact (congrArg Vital.reachable hvital :).symm.trans hreach
      · exact (congrArg Vital.timers hvital :) ▸ ht
  | mark marked hevent =>
      -- What the handle shows can only take a process out of reach.
      cases marked with
      | true => exact fun hreach => nomatch Vital.unmarked_of_reachable hreach
      | false => exact absurd hevent hmark
  | exit x _ _ =>
      intro hreach
      exact nomatch Vital.exit_of_reachable hreach
  | disarm _ => exact fun _ t ht => nomatch ht
  | fire _ => exact warned_fireNext hr
  | _ => exact hr.grow hbefore id rfl fun _ ht _ => ht

/-- What moves do on an event that has nothing to do with time happens at one time. -/
theorem now_move_eq (h : Move e r a) (htimer : e ≠ .timer) (hpass : ¬∃ ms, e = .pass ms) :
    (a r).1.now = r.now := by
  rcases clock_move h with hclock | ⟨htime | htime, -⟩
  · exact (Prod.mk.inj hclock).1
  · exact absurd htime htimer
  · exact absurd htime hpass

theorem now_act_eq (htimer : e ≠ .timer) (hpass : ¬∃ ms, e = .pass ms) (r : Relay) :
    (act e r).1.now = r.now := by
  refine act_keeps (P := fun _ s => s.now = r.now) [] (fun h hs => ?_) rfl
  exact (now_move_eq h htimer hpass).trans hs

theorem warned_act {before : List (Rat × Signal)} (hmark : e ≠ .mark false)
    (hr : Warned before r.vital) : Warned (before ++ r.signals e) (act e r).1.vital := by
  rw [signals_eq]
  by_cases htimer : e = .timer
  · rw [htimer]
    exact warned_fireNext hr
  by_cases hpass : ∃ ms, e = .pass ms
  · obtain ⟨ms, rfl⟩ := hpass
    exact warned_move hmark (.pass ms rfl) hr
  -- On any other event the clock stands still, and all its signals have the same time.
  have hkept := act_keeps (e := e) (r := r) []
    (P := fun past s => s.now = r.now ∧ Warned (before ++ stamped r.now past) s.vital)
    (fun {past s a} h hs => ?_) ⟨rfl, (List.append_nil before).symm ▸ hr⟩
  · rw [hkept.1]
    exact hkept.2
  · have hnow : (a s).1.now = r.now := (now_move_eq h htimer hpass).trans hs.1
    have hstep := warned_move hmark h hs.2
    rw [hnow, List.append_assoc, ← stamped_append] at hstep
    exact ⟨hnow, hstep⟩

theorem warned_run (command : String) (patience now : Rat) (pid : Option Int) (reading : Bool)
    (events : List RelayEvent) (hmark : .mark false ∉ events) :
    Warned ((fresh command patience now pid reading).sent events)
      ((fresh command patience now pid reading).run events).1.vital := by
  induction events using List.reverseRecOn with
  | nil => exact fun _ t ht => nomatch ht
  | append_singleton before e ih =>
      have hbefore : .mark false ∉ before := fun h => hmark (List.mem_append_left _ h)
      have hevent : e ≠ .mark false := by
        rintro rfl
        exact hmark (List.mem_append_right _ (List.mem_singleton.mpr rfl))
      rw [(run_concat _ before e).1, sent_append, sent, sent, List.append_nil]
      exact warned_act hevent (ih hbefore)

/-- Apart from the caller and the end of the program, only a due timer stops a process for
    good. -/
theorem kill_only_from_timer (hkill : ∀ s, e ≠ .kill s) (hend : e ≠ .programEnd)
    (htimer : e ≠ .timer) (r : Relay) : .signal .kill ∉ Output.calls (act e r).2 := by
  have hkept := act_keeps (e := e) (r := r) []
    (P := fun past _ => .signal .kill ∉ past) (fun {past s a} h hs => ?_) List.not_mem_nil
  · exact hkept
  rw [List.mem_append, not_or]
  refine ⟨hs, fun hmem => ?_⟩
  rcases h.origin _ hmem with (hevent | hevent) | hterm | hevent
  · exact hkill _ hevent
  · exact hend hevent
  · exact term_ne_kill hterm.symm
  · exact htimer hevent

/-- A process is stopped for good only when patience is over since it was asked to stop. -/
theorem kill_warned {before : List (Rat × Signal)} {t : Rat} (hkill : ∀ s, e ≠ .kill s)
    (hend : e ≠ .programEnd) (hr : Warned before r.vital) (ht : (t, .kill) ∈ r.signals e) :
    ∃ s, (s, Signal.term) ∈ before ∧ Number.rounded (s + r.patience) ≤ t := by
  rw [signals_eq, mem_stamped] at ht
  obtain ⟨rfl, hcall⟩ := ht
  by_cases htimer : e = .timer
  · rw [htimer] at hcall ⊢
    change .signal .kill ∈ Output.calls (fireNext r).2 at hcall
    cases hnext : nextTimer r.timers with
    | none =>
        rw [fireNext_of_none hnext] at hcall
        exact nomatch hcall
    | some u =>
        have hdue : u.due ≤ (fireNext r).1.now := (fireNext_clock r).2.2 u hnext
        rw [fireNext_of_some hnext, calls_fire] at hcall
        split at hcall
        · rename_i hcan
          have hsignal : u.purpose.signal = .kill :=
            (ChildCall.signal.inj (List.mem_singleton.mp hcall)).symm
          obtain ⟨s, hs, hwait⟩ := hr hcan u (mem_of_nextTimer hnext) hsignal
          exact ⟨s, hs, hwait.trans hdue⟩
        · exact nomatch hcall
  · exact absurd hcall (kill_only_from_timer hkill hend htimer r)

end Relay

end SshDial

import SshDial.Proofs.Relay.Move

/-! # Drop — a process is not forgotten with its stream

    A stream can be destroyed in many ways, and its process may well outlive it.  Whichever
    way it was, both pipes are let go of and the process is chased: after an orderly end of
    the stream it is asked to stop, now or by an armed timer; otherwise it has been asked
    already, and it is stopped for good, now or by an armed timer.

    `Relay.Pursued` is the invariant.  It speaks of what has been done to the process so
    far, of the state of the stream and of the armed timers at once, and only three moves
    can endanger it: the destruction itself, a due timer, and what the handle shows.  All
    others only add to what has been done (`Relay.Pursued.grow`). -/

namespace SshDial

/-- When it is due, the timer sends the signal to a process that can still get it. -/
def Timer.Sends (t : Timer) (s : Signal) : Prop :=
  ∀ r : Relay, r.canSignal = true → .signal s ∈ Output.calls (Relay.fire t.purpose r).2

theorem Timer.sends_signal (t : Timer) : t.Sends t.purpose.signal := by
  intro r hcan
  rw [Relay.calls_fire, hcan]
  exact List.mem_singleton.mpr rfl

namespace Relay

/-- The signal has been sent, or an armed timer sends it when it is due. -/
def Pressed (past : List ChildCall) (timers : List Timer) (s : Signal) : Prop :=
  .signal s ∈ past ∨ ∃ t ∈ timers, t.Sends s

/-- Both pipes have been let go of, and the handle shows it. -/
structure Vital.PipesDropped (past : List ChildCall) (v : Vital) : Prop where
  input : v.inputDestroyed = true ∧ .destroyInput ∈ past
  output : v.outputDestroyed = true ∧ .destroyOutput ∈ past

/-- The stream has come to an orderly end: no error, output ended, input ended. -/
structure Vital.EndedInOrder (v : Vital) : Prop where
  fault : v.fault = none
  output : v.outputEnded = true
  input : v.inputEnded = true

/-- After an orderly end the process is asked to stop; after any other it has been asked,
    and is stopped for good. -/
def Vital.Chased (past : List ChildCall) (v : Vital) : Prop :=
  v.EndedInOrder ∧ Pressed past v.timers .term
    ∨ .signal .term ∈ past ∧ Pressed past v.timers .kill

/-- A process that outlives its stream is chased, as long as its handle shows no end. -/
structure Pursued (past : List ChildCall) (v : Vital) : Prop where
  pid : v.pid.isSome = true
  unmarked : v.marked = false
  pipes : v.destroyed = true → v.PipesDropped past
  chased : v.destroyed = true → v.exit = none → v.Chased past

/-- All that the pursuit is about but the timers. -/
def Vital.fate (v : Vital) : Vital :=
  { v with
    writeError := none, ending := false, finished := false, underway := none, backlog := []
    timers := [], patience := 0, now := 0 }

variable {e : RelayEvent} {r : Relay} {a : Act} {past more : List ChildCall} {v w : Vital}

theorem Pressed.grow {timers later : List Timer} {s : Signal} (h : Pressed past timers s)
    (hpast : past ⊆ more) (htimers : timers ⊆ later) : Pressed more later s := by
  rcases h with hsent | ⟨t, ht, hsends⟩
  · exact Or.inl (hpast hsent)
  · exact Or.inr ⟨t, htimers ht, hsends⟩

theorem Pursued.reachable (h : Pursued past v) (hexit : v.exit = none) : v.reachable = true := by
  rw [Vital.reachable, h.pid, h.unmarked, hexit]
  rfl

/-- The pursuit goes on as long as nobody stops pressing a process that has not ended. -/
theorem Pursued.go (h : Pursued past v) (hfate : w.fate = v.fate) (hpast : past ⊆ more)
    (hpress : v.exit = none → ∀ s, Pressed past v.timers s → Pressed more w.timers s) :
    Pursued more w := by
  have hdestroyed : w.destroyed = v.destroyed := (congrArg Vital.destroyed hfate :)
  have hexit : w.exit = v.exit := (congrArg Vital.exit hfate :)
  refine ⟨?_, (congrArg Vital.marked hfate :).trans h.unmarked, fun hgone => ?_,
    fun hgone hnone => ?_⟩
  · exact (congrArg (fun v : Vital => v.pid.isSome) hfate :).trans h.pid
  · obtain ⟨⟨hinput, hin⟩, ⟨houtput, hout⟩⟩ := h.pipes (hdestroyed ▸ hgone)
    exact ⟨⟨(congrArg Vital.inputDestroyed hfate :).trans hinput, hpast hin⟩,
      ⟨(congrArg Vital.outputDestroyed hfate :).trans houtput, hpast hout⟩⟩
  · rw [hexit] at hnone
    rcases h.chased (hdestroyed ▸ hgone) hnone with ⟨horder, hterm⟩ | ⟨hterm, hkill⟩
    · refine Or.inl ⟨⟨?_, ?_, ?_⟩, hpress hnone .term hterm⟩
      · exact (congrArg Vital.fault hfate :).trans horder.fault
      · exact (congrArg Vital.outputEnded hfate :).trans horder.output
      · exact (congrArg Vital.inputEnded hfate :).trans horder.input
    · exact Or.inr ⟨hpast hterm, hpress hnone .kill hkill⟩

/-- More that is done to the process and more timers do no harm. -/
theorem Pursued.grow (h : Pursued past v) (hfate : w.fate = v.fate) (hpast : past ⊆ more)
    (htimers : v.timers ⊆ w.timers) : Pursued more w :=
  h.go hfate hpast fun _ _ hs => hs.grow hpast htimers

/-- As long as the stream is there, nothing is asked for. -/
theorem pursued_of_open (hpid : v.pid.isSome = true) (hmarked : v.marked = false)
    (hopen : v.destroyed = false) : Pursued past v :=
  ⟨hpid, hmarked, fun hgone => absurd hgone (Bool.eq_false_iff.mp hopen),
    fun hgone => absurd hgone (Bool.eq_false_iff.mp hopen)⟩

/-- A stream is still there as long as one of its pipes is. -/
theorem Pursued.open_of_pipe (h : Pursued past v)
    (hpipe : v.inputDestroyed = false ∨ v.outputDestroyed = false) : v.destroyed = false := by
  refine Bool.eq_false_iff.mpr fun hgone => ?_
  obtain ⟨⟨hinput, -⟩, ⟨houtput, -⟩⟩ := h.pipes hgone
  rcases hpipe with hpipe | hpipe
  · exact Bool.eq_false_iff.mp hpipe hinput
  · exact Bool.eq_false_iff.mp hpipe houtput

/-- A process that has not ended is pressed by the timer that the destruction arms. -/
theorem pressed_dropTimers (hexit : v.exit = none) (s : Signal) :
    Pressed past (v.dropTimers s) s := by
  refine Or.inr ⟨⟨Number.rounded (v.now + v.patience), .drop s⟩, ?_, Timer.sends_signal _⟩
  rw [Vital.dropTimers, hexit]
  exact List.mem_append_right _ (List.mem_singleton.mpr rfl)

/-- The pursuit begins with the destruction of the stream, whatever its reason. -/
theorem pursued_destroy (why : Option Refusal) (hopen : r.stream.destroyed = false)
    (hr : Pursued past r.vital) :
    Pursued (past ++ Output.calls (destroy why r).2) (destroy why r).1.vital := by
  rw [vital_destroy why hopen, calls_destroy why hopen]
  refine ⟨hr.pid, hr.unmarked, fun _ => ⟨⟨rfl, by simp⟩, ⟨rfl, by simp⟩⟩, fun _ hexit => ?_⟩
  have hnone : r.vital.exit = none := hexit
  have hcan : r.canSignal = true := hr.reachable hnone
  rw [Vital.Chased, Vital.dropped, lastSignal]
  cases horderly : isOrderly why r with
  | true =>
      rw [isOrderly, Bool.and_eq_true, Bool.and_eq_true] at horderly
      obtain ⟨⟨hfault, houtput⟩, hinput⟩ := horderly
      exact Or.inl ⟨⟨Option.isNone_iff_eq_none.mp hfault, houtput, hinput⟩,
        pressed_dropTimers hnone .term⟩
  | false =>
      refine Or.inr ⟨?_, pressed_dropTimers hnone .kill⟩
      rw [hcan]
      simp

/-- A timer that is due does not stop the pursuit: what it was to send it sends. -/
theorem pressed_fireNext {s : Signal} (hcan : r.canSignal = true)
    (h : Pressed past r.timers s) :
    Pressed (past ++ Output.calls (fireNext r).2) (fireNext r).1.timers s := by
  cases hnext : nextTimer r.timers with
  | none =>
      rw [fireNext_of_none hnext]
      exact h.grow (List.subset_append_left _ _) (List.Subset.refl _)
  | some t =>
      rw [fireNext_of_some hnext]
      rcases h with hsent | ⟨u, hu, hsends⟩
      · exact Or.inl (List.mem_append_left _ hsent)
      by_cases hsame : u = t
      · -- It is the timer that is due, and the process is still there.
        rw [hsame] at hsends
        exact Or.inl (List.mem_append_right _ (hsends (withFired t r) hcan))
      · refine Or.inr ⟨u, ?_, hsends⟩
        have hleft : u ∈ r.timers.erase t := (List.mem_erase_of_ne hsame).mpr hu
        have htimers : (fire t.purpose (withFired t r)).1.timers
            = (fire t.purpose (withFired t r)).1.vital.timers := rfl
        rw [htimers, vital_fire]
        split
        · exact List.mem_append_left _ hleft
        · exact hleft

theorem fate_fireNext (r : Relay) : (fireNext r).1.vital.fate = r.vital.fate := by
  obtain ⟨timers, now, hvital⟩ := vital_fireNext r
  rw [hvital]
  rfl

/-- **One move at a time.** Whatever happens while the handle shows no end, a process that
    outlives its stream stays chased. -/
theorem pursued_move (hmark : e ≠ .mark true) (h : Move e r a) (hr : Pursued past r.vital) :
    Pursued (past ++ Output.calls (a r).2) (a r).1.vital := by
  have hpast : past ⊆ past ++ Output.calls (a r).2 := List.subset_append_left _ _
  cases h with
  | note hsame =>
      refine hr.grow (congrArg Vital.fate hsame) hpast ?_
      exact (congrArg Vital.timers hsame).symm ▸ List.Subset.refl _
  | signal s _ =>
      rw [vital_sendSignal]
      exact hr.grow rfl hpast (List.Subset.refl _)
  | destroy why hopen _ => exact pursued_destroy why hopen hr
  | endInput _ =>
      rw [vital_endInput]
      split
      · rename_i hinput
        rw [Bool.and_eq_true, Bool.not_eq_true'] at hinput
        exact pursued_of_open hr.pid hr.unmarked (hr.open_of_pipe (Or.inl hinput.1))
      · exact hr.grow rfl hpast (List.Subset.refl _)
  | await _ _ => exact hr.grow rfl hpast (List.subset_append_left _ _)
  | endOutput _ hopen =>
      rw [outputOpen, Bool.and_eq_true, Bool.not_eq_true', Bool.not_eq_true'] at hopen
      have hstream : r.stream.destroyed = false := hr.open_of_pipe (Or.inr hopen.2)
      refine pursued_of_open ?_ ?_ ?_
      · exact (congrArg (fun v : Vital => v.pid.isSome) (vital_withOutputEnded r) :).trans hr.pid
      · exact (congrArg Vital.marked (vital_withOutputEnded r) :).trans hr.unmarked
      · exact (congrArg Vital.destroyed (vital_withOutputEnded r) :).trans hstream
  | mark marked hevent =>
      have hnot : marked = false := by
        cases marked with
        | true => exact absurd hevent hmark
        | false => rfl
      refine hr.grow ?_ hpast (List.Subset.refl _)
      show { r.vital.fate with marked } = r.vital.fate
      rw [hnot, ← hr.unmarked]
      rfl
  | exit x _ _ =>
      -- A process that has ended is nobody's concern; the pipes stay as they are.
      refine ⟨hr.pid, hr.unmarked, fun hgone => ?_, fun _ hnone => nomatch hnone⟩
      obtain ⟨⟨hinput, hin⟩, ⟨houtput, hout⟩⟩ := hr.pipes hgone
      exact ⟨⟨hinput, hpast hin⟩, ⟨houtput, hpast hout⟩⟩
  | disarm hexit =>
      exact hr.go rfl hpast fun hnone => absurd hnone (Option.isSome_iff_ne_none.mp hexit)
  | fire _ =>
      exact hr.go (fate_fireNext r) hpast fun hnone s hs => pressed_fireNext (hr.reachable hnone) hs
  | _ => exact hr.grow rfl hpast (List.Subset.refl _)

/-- The invariant of a run in which the handle shows no end. -/
theorem pursued_run (command : String) (patience now : Rat) (pid : Int) (reading : Bool)
    (events : List RelayEvent) (hmark : .mark true ∉ events) :
    Pursued (Output.calls ((fresh command patience now (some pid) reading).run events).2)
      ((fresh command patience now (some pid) reading).run events).1.vital := by
  have hfresh : Pursued [] (fresh command patience now (some pid) reading).vital :=
    pursued_of_open rfl rfl rfl
  refine run_keeps_moves [] (Q := (· ≠ .mark true)) (P := fun past r => Pursued past r.vital)
    (fun he h hr => pursued_move he h hr) hfresh fun e he => ?_
  rintro rfl
  exact hmark he

/-- How the stream came to its end, and whether it has. -/
def Vital.farewell (v : Vital) : Bool × Option Refusal × Bool × Bool :=
  (v.destroyed, v.fault, v.outputEnded, v.inputEnded)

/-- Nothing changes any more about how a stream has ended: its pipes are gone. -/
theorem farewell_move (h : Move e r a) (hr : Pursued past r.vital)
    (hgone : r.stream.destroyed = true) : (a r).1.vital.farewell = r.vital.farewell := by
  have hinput : r.child.inputDestroyed = true := (hr.pipes hgone).input.1
  have houtput : r.child.outputDestroyed = true := (hr.pipes hgone).output.1
  cases h with
  | note hsame => exact congrArg Vital.farewell hsame
  | signal s _ => rw [vital_sendSignal]
  | destroy why hopen _ => exact absurd hgone (Bool.eq_false_iff.mp hopen)
  | endInput _ =>
      rw [vital_endInput, if_neg]
      rw [hinput]
      exact Bool.false_ne_true
  | endOutput _ hopen =>
      rw [outputOpen, houtput, Bool.not_true, Bool.and_false] at hopen
      exact nomatch hopen
  | fire _ => exact (congrArg Vital.farewell (fate_fireNext r) :)
  | _ => rfl

theorem farewell_run (command : String) (patience now : Rat) (pid : Int) (reading : Bool)
    (before after : List RelayEvent) (hmark : .mark true ∉ before ++ after)
    (hgone : ((fresh command patience now (some pid) reading).run before).1.stream.destroyed = true) :
    ((fresh command patience now (some pid) reading).run (before ++ after)).1.vital.farewell
      = ((fresh command patience now (some pid) reading).run before).1.vital.farewell := by
  have hbefore := pursued_run command patience now pid reading before
    fun h => hmark (List.mem_append_left _ h)
  rw [run_append]
  generalize (fresh command patience now (some pid) reading).run before = middle at hbefore hgone ⊢
  refine (run_keeps_moves (Output.calls middle.2) (Q := (· ≠ .mark true))
    (P := fun past r => Pursued past r.vital ∧ r.vital.farewell = middle.1.vital.farewell)
    (fun he h hr => ?_) ⟨hbefore, rfl⟩ fun e he => ?_).2
  · -- The stream is still gone, so the move changes nothing about how it went.
    have hstill := (congrArg Prod.fst hr.2 :).trans hgone
    exact ⟨pursued_move he h hr.1, (farewell_move h hr.1 hstill).trans hr.2⟩
  · rintro rfl
    exact hmark (List.mem_append_right _ he)

/-- **A dropped process is never abandoned.** At any time after the stream was destroyed, by
    whatever way, a process that has not ended has lost both its pipes.  If the stream had
    come to an orderly end by then, the process has been asked to stop or an armed timer
    will ask it; otherwise it has been asked, and it has been stopped for good or an armed
    timer will do that. -/
theorem dropped_is_chased (command : String) (patience now : Rat) (pid : Int) (reading : Bool)
    (before after : List RelayEvent) :
    let start := fresh command patience now (some pid) reading
    let past := Output.calls (start.run (before ++ after)).2
    let r := (start.run (before ++ after)).1
    (start.run before).1.stream.destroyed = true → .mark true ∉ before ++ after →
      r.exit = none →
      r.vital.PipesDropped past
        ∧ ((start.run before).1.vital.EndedInOrder ∧ Pressed past r.timers .term
          ∨ .signal .term ∈ past ∧ Pressed past r.timers .kill) := by
  intro start past r hgone hmark hexit
  have hpursued : Pursued past r.vital :=
    pursued_run command patience now pid reading (before ++ after) hmark
  have hsame : r.vital.farewell = (start.run before).1.vital.farewell :=
    farewell_run command patience now pid reading before after hmark hgone
  obtain ⟨hstill, hmanner⟩ := Prod.mk.inj hsame
  obtain ⟨hfault, hends⟩ := Prod.mk.inj hmanner
  obtain ⟨houtput, hinput⟩ := Prod.mk.inj hends
  have hnow : r.stream.destroyed = true := hstill.trans hgone
  refine ⟨hpursued.pipes hnow, ?_⟩
  rcases hpursued.chased hnow hexit with ⟨horder, hterm⟩ | hkill
  · -- What has been orderly at the destruction is so still, and the other way round.
    exact Or.inl ⟨⟨hfault.symm.trans horder.fault, houtput.symm.trans horder.output,
      hinput.symm.trans horder.input⟩, hterm⟩
  · exact Or.inr hkill

/-- A close asks the process to stop; a caller that then loses its patience drops the
    stream. -/
theorem dropped_is_chased_after_close :
    let r := (fresh "nc" defaultPatience 0 (some 1) true).run
      [.spawned, .output "x", .close, .timer, .destroy none, .pass 5, .read]
    r.1.stream.destroyed = true ∧ r.1.exit = none ∧ .signal .term ∈ Output.calls r.2
      ∧ Pressed (Output.calls r.2) r.1.timers .kill := by
  have hmark : .mark true ∉ ([.spawned, .output "x", .close, .timer, .destroy none]
      ++ [.pass 5, .read] : List RelayEvent) := by simp
  have hopen : ((fresh "nc" defaultPatience 0 (some 1) true).run
      [.spawned, .output "x", .close, .timer, .destroy none]).1.vital.outputEnded = false := by
    decide +kernel
  have hchased := dropped_is_chased "nc" defaultPatience 0 1 true
    [.spawned, .output "x", .close, .timer, .destroy none] [.pass 5, .read]
    (by decide +kernel) hmark (by decide +kernel)
  refine ⟨by decide +kernel, by decide +kernel, ?_⟩
  rcases hchased.2 with horder | hkill
  · exact absurd horder.1.output (Bool.eq_false_iff.mp hopen)
  · exact hkill

end Relay

end SshDial

import SshDial.Proofs.Relay.Answer
import SshDial.Proofs.Relay.Exit

/-! # Life — the stages of a relay

    A relay is spawned, runs, is closed and is reaped, and each of its rules may move it on
    or leave it where it is.  `Relay.Onward` says this of two states, together with what
    the stage is worth (`Relay.Coherent`): it tells whether the process has ended, and as
    long as it is that of a process that runs neither the stream nor the output is gone.

    `Act.GoesOn` is what one act does about it, and there is one lemma for each rule.  Acts
    that answer a close are looked at on the way: the stream is gone by then.

    `Relay.stages_of_life` puts this together with the report of the exit, over all runs. -/

namespace SshDial

/-- The exit that a close is answered with. -/
def Output.closed? : Output → Option Exit
  | .notice (.closed x) => some x
  | _ => none

/-! ## Stages -/

namespace Relay

/-- The relay is closed, or reaped. -/
def IsOver (r : Relay) : Prop := r.stage = .closed ∨ r.stage = .reaped

theorem isOver_iff_rank {r : Relay} : r.IsOver ↔ 2 ≤ r.stage.rank := by
  rw [IsOver]
  cases r.stage with
  | spawned => decide
  | running => decide
  | closed => decide
  | reaped => decide

/-- The stage tells the end of the process, and that nothing can come any more. -/
structure Coherent (r : Relay) : Prop where
  reaped : r.stage = .reaped ↔ r.exit.isSome = true
  ended : r.child.outputEnded = true → r.IsOver
  gone : r.stream.destroyed = true → r.IsOver

/-- What the stages are about. -/
def course (r : Relay) : Stage × Option Exit × Bool × Bool :=
  (r.stage, r.exit, r.child.outputEnded, r.stream.destroyed)

/-- `s` comes after `r`, or at the same time. -/
structure Onward (r s : Relay) : Prop where
  rank : r.stage.rank ≤ s.stage.rank
  gone : r.stream.destroyed = true → s.stream.destroyed = true
  coherent : r.Coherent → s.Coherent

variable {r s t : Relay}

theorem Onward.refl (r : Relay) : Onward r r := ⟨Nat.le_refl _, id, id⟩

theorem Onward.trans (h : Onward r s) (h' : Onward s t) : Onward r t where
  rank := Nat.le_trans h.rank h'.rank
  gone hgone := h'.gone (h.gone hgone)
  coherent hr := h'.coherent (h.coherent hr)

theorem Onward.isOver (h : Onward r s) (hr : r.IsOver) : s.IsOver :=
  isOver_iff_rank.mpr (Nat.le_trans (isOver_iff_rank.mp hr) h.rank)

theorem Onward.of_course (h : s.course = r.course) : Onward r s := by
  obtain ⟨hstage, hrest⟩ := Prod.mk.inj h
  obtain ⟨hexit, hrest⟩ := Prod.mk.inj hrest
  obtain ⟨hended, hgone⟩ := Prod.mk.inj hrest
  refine ⟨Nat.le_of_eq (congrArg Stage.rank hstage.symm), fun h => hgone.trans h, ?_⟩
  rintro ⟨hreaped, hover, hover'⟩
  refine ⟨?_, fun hend => ?_, fun hend => ?_⟩
  · rw [hstage, hexit]
    exact hreaped
  · rw [IsOver, hstage]
    exact hover (hended.symm.trans hend)
  · rw [IsOver, hstage]
    exact hover' (hgone.symm.trans hend)

/-- A relay that is given up. -/
theorem Onward.of_isOver (hover : s.IsOver) (hrank : r.stage.rank ≤ s.stage.rank)
    (hgone : r.stream.destroyed = true → s.stream.destroyed = true)
    (hreaped : (r.stage = .reaped ↔ r.exit.isSome = true) →
      (s.stage = .reaped ↔ s.exit.isSome = true)) : Onward r s :=
  ⟨hrank, hgone, fun hr => ⟨hreaped hr.reaped, fun _ => hover, fun _ => hover⟩⟩

theorem isOver_markClosed (r : Relay) : (markClosed r).IsOver := by
  rw [IsOver, markClosed]
  cases hstage : r.stage with
  | spawned => exact Or.inl rfl
  | running => exact Or.inl rfl
  | closed => exact Or.inl hstage
  | reaped => exact Or.inr hstage

theorem rank_markClosed (r : Relay) : r.stage.rank ≤ (markClosed r).stage.rank := by
  rw [markClosed]
  split
  · rename_i hopen
    show r.stage.rank ≤ Stage.closed.rank
    rcases hopen with hstage | hstage
    · rw [hstage]
      decide
    · rw [hstage]
      decide
  · exact Nat.le_refl _

theorem reaped_markClosed (r : Relay) : (markClosed r).stage = .reaped ↔ r.stage = .reaped := by
  rw [markClosed]
  split
  · rename_i hopen
    have hnot : Stage.closed ≠ .reaped := by decide
    refine iff_of_false hnot fun h => ?_
    rw [h] at hopen
    exact absurd hopen (by decide)
  · exact Iff.rfl

/-- Giving the relay up moves it on, whatever happens to its pipes and its stream. -/
theorem onward_markClosed (hstage : s.stage = (markClosed r).stage) (hexit : s.exit = r.exit)
    (hgone : r.stream.destroyed = true → s.stream.destroyed = true) : Onward r s := by
  refine .of_isOver ?_ ?_ hgone fun hreaped => ?_
  · rw [IsOver, hstage]
    exact isOver_markClosed r
  · rw [hstage]
    exact rank_markClosed r
  · rw [hstage, hexit, reaped_markClosed]
    exact hreaped

end Relay

/-! ## Acts -/

namespace Act

/-- In the state `r` the act moves the relay on, and answers no close before the stream is
    gone. -/
def GoesOn (a : Act) (r : Relay) : Prop :=
  Relay.Onward r (a r).1
    ∧ ∀ o ∈ (a r).2, o.closed?.isSome = true → (a r).1.stream.destroyed = true

variable {a b : Act} {r : Relay}

theorem goesOn_skip : skip.GoesOn r := ⟨.refl r, List.forall_mem_nil _⟩

theorem goesOn_modify {f : Relay → Relay} (h : Relay.Onward r (f r)) : (modify f).GoesOn r :=
  ⟨h, List.forall_mem_nil _⟩

/-- A change of something that the stages are not about. -/
theorem goesOn_note {f : Relay → Relay} (h : (f r).course = r.course) : (modify f).GoesOn r :=
  goesOn_modify (.of_course h)

theorem goesOn_emit {outputs : List Output} (h : ∀ o ∈ outputs, o.closed? = none) :
    (emit outputs).GoesOn r := by
  refine ⟨.refl r, fun o ho hclosed => ?_⟩
  rw [h o ho] at hclosed
  exact nomatch hclosed

theorem goesOn_tell {o : Output} (h : o.closed? = none) : (emit [o]).GoesOn r :=
  goesOn_emit (List.forall_mem_singleton.mpr h)

/-- When the stream is gone anything may be said. -/
theorem goesOn_emit_of_gone {outputs : List Output} (h : r.stream.destroyed = true) :
    (emit outputs).GoesOn r :=
  ⟨.refl r, fun _ _ _ => h⟩

theorem GoesOn.andThen (ha : a.GoesOn r) (hb : b.GoesOn (a r).1) : (a.andThen b).GoesOn r := by
  refine ⟨ha.1.trans hb.1, fun o ho hclosed => ?_⟩
  rcases List.mem_append.mp ho with ho | ho
  · exact hb.1.gone (ha.2 o ho hclosed)
  · exact hb.2 o ho hclosed

theorem goesOn_reading {f : Relay → Act} (h : (f r).GoesOn r) : (reading f).GoesOn r := h

theorem GoesOn.when {c : Relay → Bool} (ha : a.GoesOn r) : (Act.when c a).GoesOn r := by
  rw [GoesOn, Act.when]
  split
  · exact ha
  · exact goesOn_skip

end Act

namespace Relay

open Act

variable {r : Relay}

/-! ## The rules -/

theorem goesOn_sendSignal (s : Signal) : (sendSignal s).GoesOn r :=
  ((goesOn_note rfl).andThen (goesOn_tell rfl)).when

theorem goesOn_dropPipes : dropPipes.GoesOn r :=
  (goesOn_note rfl).andThen <| goesOn_emit <|
    List.forall_mem_cons.mpr ⟨rfl, List.forall_mem_singleton.mpr rfl⟩

theorem goesOn_reapLater (s : Signal) : (reapLater s).GoesOn r := (goesOn_note rfl).when

theorem goesOn_endInput : endInput.GoesOn r :=
  ((goesOn_note rfl).andThen (goesOn_tell rfl)).when

theorem goesOn_destroy (why : Option Refusal) : (destroy why).GoesOn r := by
  have hmark : Onward r (markDestroyed why r) :=
    onward_markClosed rfl (congrArg Vital.exit (vital_markClosed r)) fun _ => rfl
  refine GoesOn.when (goesOn_reading ?_)
  refine (goesOn_modify hmark).andThen <| GoesOn.andThen ?_ <| goesOn_dropPipes.andThen <|
    (goesOn_reapLater _).andThen <| goesOn_emit ?_
  · split
    · exact goesOn_skip
    · exact goesOn_sendSignal .term
  · cases why with
    | none => exact List.forall_mem_singleton.mpr rfl
    | some why => exact List.forall_mem_cons.mpr ⟨rfl, List.forall_mem_singleton.mpr rfl⟩

theorem goesOn_destroyIfThrough : destroyIfThrough.GoesOn r := (goesOn_destroy none).when

theorem goesOn_deliver : deliver.GoesOn r :=
  ⟨.of_course rfl, (goesOn_emit (r := r) (List.forall_mem_map.mpr fun _ _ => rfl)).2⟩

theorem goesOn_announceEnd : announceEnd.GoesOn r :=
  ((goesOn_note rfl).andThen ((goesOn_tell rfl).andThen goesOn_destroyIfThrough)).when

theorem goesOn_showEnd : showEnd.GoesOn r := goesOn_announceEnd.when

theorem goesOn_accept (chunk : String) : (accept chunk).GoesOn r := by
  refine goesOn_reading ?_
  show (if r.stream.reading then _ else _ : Act).GoesOn r
  split
  · refine (goesOn_note rfl).andThen ?_
    split
    · exact goesOn_emit (List.forall_mem_nil _)
    · exact goesOn_tell rfl
  · exact (goesOn_note rfl).andThen (goesOn_tell rfl).when

theorem goesOn_endOutput : endOutput.GoesOn r := by
  refine (goesOn_modify ?_).andThen goesOn_showEnd
  refine onward_markClosed ?_ (congrArg Vital.exit (vital_withOutputEnded r)) fun hgone => ?_
  · rw [markClosed, markClosed]
    split
    · rfl
    · rfl
  · exact (congrArg Vital.destroyed (vital_withOutputEnded r)).trans hgone

theorem goesOn_finish : finish.GoesOn r :=
  (goesOn_endInput.andThen ((goesOn_note rfl).andThen goesOn_destroyIfThrough)).when

theorem goesOn_finishIfDue : finishIfDue.GoesOn r := goesOn_finish.when

theorem goesOn_report (p : Parcel) {n : Notice} (h : n.answer? = none) :
    (report p n).GoesOn r := by
  rw [report]
  split
  · refine goesOn_tell ?_
    cases n with
    | closed x => cases h
    | _ => rfl
  · exact goesOn_emit (List.forall_mem_nil _)

theorem goesOn_abandon (why : Refusal) : (abandon why).GoesOn r :=
  goesOn_reading <| (goesOn_note rfl).andThen <|
    goesOn_emit (List.forall_mem_map.mpr fun _ _ => rfl)

theorem goesOn_failWrite (p : Parcel) (error : Value) : (failWrite p error).GoesOn r :=
  goesOn_reading <| (goesOn_report p rfl).andThen <|
    (goesOn_destroy _).andThen (goesOn_abandon _)

theorem goesOn_handOver (p : Parcel) (later : List Parcel) : (handOver p later).GoesOn r :=
  (goesOn_note rfl).andThen (goesOn_tell rfl)

theorem goesOn_passOn (texts : List Parcel) : (passOn texts).GoesOn r := by
  induction texts generalizing r with
  | nil => exact goesOn_finishIfDue
  | cons p later ih =>
      refine (goesOn_handOver p later).andThen (goesOn_reading ?_)
      split
      · exact goesOn_skip
      · split
        · exact (goesOn_report p rfl).andThen ih
        · exact goesOn_failWrite p _

theorem goesOn_passWaiting : passWaiting.GoesOn r := goesOn_reading (goesOn_passOn _)

theorem goesOn_submit (p : Parcel) : (submit p).GoesOn r :=
  (goesOn_note rfl).andThen goesOn_passWaiting.when

theorem goesOn_goOn : goOn.GoesOn r := by
  refine goesOn_reading ?_
  split
  · exact goesOn_abandon _
  · exact goesOn_passWaiting

theorem goesOn_writeTaken : writeTaken.GoesOn r := by
  refine goesOn_reading ?_
  split
  · exact goesOn_skip
  · refine (goesOn_note rfl).andThen ?_
    split
    · exact (goesOn_report _ rfl).andThen goesOn_goOn
    · exact goesOn_failWrite _ _

theorem goesOn_write (text : String) : (write text).GoesOn r := by
  refine goesOn_reading ?_
  split
  · exact (goesOn_tell rfl).andThen (goesOn_destroy _)
  · split
    · exact goesOn_tell rfl
    · exact goesOn_submit _

theorem goesOn_endWrites : endWrites.GoesOn r := ((goesOn_note rfl).andThen goesOn_finishIfDue).when

theorem goesOn_endWritesWith (text : String) : (endWritesWith text).GoesOn r := by
  refine goesOn_reading ?_
  split
  · exact goesOn_destroy _
  · split
    · exact goesOn_skip
    · exact (goesOn_note rfl).andThen (goesOn_submit _)

theorem goesOn_beginReading : beginReading.GoesOn r :=
  ((goesOn_note rfl).andThen (goesOn_deliver.andThen goesOn_showEnd)).when

theorem goesOn_readNext : readNext.GoesOn r :=
  ((goesOn_reading (goesOn_emit (List.forall_mem_map.mpr fun _ _ => rfl))).andThen <|
    (goesOn_note rfl).andThen goesOn_announceEnd.when).when

theorem goesOn_fire (purpose : Purpose) : (fire purpose).GoesOn r := by
  unfold fire
  cases purpose with
  | closeTerm =>
      refine goesOn_reading ((goesOn_tell rfl).andThen ?_)
      exact (goesOn_sendSignal .term).andThen (goesOn_note rfl)
  | closeKill =>
      refine goesOn_reading ((goesOn_tell rfl).andThen ?_)
      exact (goesOn_sendSignal .kill).andThen (goesOn_note rfl)
  | drop s => exact goesOn_sendSignal s

theorem goesOn_fireNext : fireNext.GoesOn r := by
  refine goesOn_reading ?_
  split
  · exact goesOn_skip
  · exact (goesOn_note rfl).andThen (goesOn_fire _)

theorem goesOn_spawned : (act .spawned).GoesOn r := by
  rw [GoesOn, act, Act.when]
  split
  · rename_i hspawned
    have hstage : r.stage = .spawned := of_decide_eq_true hspawned
    refine goesOn_modify ⟨?_, id, fun hr => ?_⟩
    · show r.stage.rank ≤ Stage.running.rank
      rw [hstage]
      decide
    · -- Nothing can be over yet, or the stage would say so.
      have hnot : ¬ r.IsOver := by
        rw [IsOver, hstage]
        decide
      have hrunning : Stage.running ≠ .reaped := by decide
      refine ⟨iff_of_false hrunning fun h => ?_, fun h => absurd (hr.ended h) hnot,
        fun h => absurd (hr.gone h) hnot⟩
      exact hnot (Or.inr (hr.reaped.mpr h))
  · exact goesOn_skip

/-- A close gives the relay up first. -/
theorem goesOn_close : close.GoesOn r ∧ (close r).1.IsOver := by
  obtain ⟨rest, hclose, hrest⟩ : ∃ rest, close = (Act.modify markClosed).andThen rest
      ∧ rest.GoesOn (markClosed r) := by
    refine ⟨_, rfl, goesOn_endInput.andThen (goesOn_reading ?_)⟩
    split
    · exact (goesOn_destroy none).andThen (goesOn_emit_of_gone (destroyed_destroy none _))
    · exact goesOn_note rfl
  have hmark : Onward r (markClosed r) :=
    onward_markClosed rfl (congrArg Vital.exit (vital_markClosed r)) fun hgone =>
      (congrArg Vital.destroyed (vital_markClosed r)).trans hgone
  rw [hclose]
  exact ⟨(goesOn_modify hmark).andThen hrest, hrest.1.isOver (isOver_markClosed r)⟩

/-- The callers are answered, those of a close after the stream is gone. -/
theorem goesOn_answerWaiters (x : Exit) : (answerWaiters x).GoesOn r := by
  have hreplicate : ∀ n, ∀ o ∈ List.replicate n (Output.notice (.waited x)),
      o.closed? = none := by
    intro n o ho
    obtain rfl := List.eq_of_mem_replicate ho
    rfl
  refine goesOn_reading ((goesOn_note rfl).andThen ((goesOn_emit (hreplicate _)).andThen ?_))
  split
  · rename_i hnone
    refine goesOn_skip.andThen (goesOn_emit ?_)
    rw [hnone]
    exact List.forall_mem_nil _
  · exact (goesOn_destroy none).andThen (goesOn_emit_of_gone (destroyed_destroy none _))

theorem onward_withExit (x : Exit) (r : Relay) : Onward r (withExit x r) := by
  refine .of_isOver (Or.inr rfl) ?_ id fun _ => iff_of_true rfl rfl
  show r.stage.rank ≤ Stage.reaped.rank
  cases r.stage with
  | spawned => decide
  | running => decide
  | closed => decide
  | reaped => decide

theorem goesOn_childExit (x : Exit) : (childExit x).GoesOn r := by
  rw [childExit_eq]
  refine ((goesOn_modify (onward_withExit x r)).andThen ?_).when
  refine (goesOn_reading (goesOn_tell rfl)).andThen (GoesOn.andThen ?_ (goesOn_answerWaiters x))
  refine goesOn_reading ?_
  split
  · exact goesOn_destroy _
  · exact goesOn_skip

/-- **No rule goes back**, whatever the event and the state. -/
theorem goesOn_act (e : RelayEvent) (r : Relay) : (act e).GoesOn r := by
  cases e with
  | spawned => exact goesOn_spawned
  | childError error => exact (goesOn_destroy _).when
  | output chunk => exact (goesOn_accept chunk).when
  | outputEnd => exact goesOn_endOutput.when
  | outputError error => exact (goesOn_reading (goesOn_destroy _)).when
  | inputError error => exact (goesOn_reading (goesOn_destroy _)).when
  | exit x => exact goesOn_childExit x
  | mark marked => exact goesOn_note rfl
  | failWrites error => exact goesOn_note rfl
  | stall stalled => exact goesOn_note rfl
  | taken => exact goesOn_writeTaken
  | read => exact goesOn_beginReading
  | pause => exact goesOn_note rfl
  | readNext => exact goesOn_readNext
  | write text => exact goesOn_write text
  | endWrites text =>
      cases text with
      | none => exact goesOn_endWrites
      | some text => exact goesOn_endWritesWith text
  | kill signal => exact goesOn_sendSignal signal
  | wait =>
      rw [act]
      refine goesOn_reading ?_
      split
      · exact goesOn_tell rfl
      · exact goesOn_note rfl
  | close => exact goesOn_close.1
  | destroy message => exact goesOn_destroy _
  | timer => exact goesOn_fireNext
  | pass ms => exact goesOn_note rfl
  | programEnd => exact (goesOn_sendSignal _).when

/-! ## Runs -/

/-- **One event after the other**, the relay moves on. -/
theorem onward_run (r : Relay) (events : List RelayEvent) : Onward r (r.run events).1 :=
  run_related .refl .trans (fun r e => (goesOn_act e r).1) r events

theorem sequel_run (r : Relay) (events : List RelayEvent) : Sequel r (r.run events).1 :=
  run_related .refl .trans sequel_step r events

theorem coherent_fresh (command : String) (patience now : Rat) (pid : Option Int)
    (reading : Bool) : (fresh command patience now pid reading).Coherent :=
  ⟨iff_of_false nofun nofun, nofun, nofun⟩

theorem isOver_close (r : Relay) : (r.step .close).1.IsOver := (goesOn_close (r := r)).2

/-- When the output ends the relay is over, be it that the output has been let go of. -/
theorem isOver_outputEnd (hr : r.Coherent) (htidy : r.Tidy) : (r.step .outputEnd).1.IsOver := by
  show (act .outputEnd r).1.IsOver
  rw [act, Act.when]
  cases hopen : r.outputOpen with
  | true => exact goesOn_showEnd.1.isOver (isOver_markClosed _)
  | false =>
      rw [outputOpen, Bool.and_eq_false_iff, Bool.not_eq_false', Bool.not_eq_false'] at hopen
      rcases hopen with hended | hgone
      · exact hr.ended hended
      · exact hr.gone (htidy.output.symm.trans hgone)

/-- After an event that ends the relay it is over for good. -/
theorem isOver_run_of_mem {e : RelayEvent} {events : List RelayEvent} (hr : r.Coherent)
    (htidy : r.Tidy)
    (h : ∀ s : Relay, s.Coherent → s.Tidy → (s.step e).1.IsOver) (hmem : e ∈ events) :
    (r.run events).1.IsOver := by
  obtain ⟨before, after, rfl⟩ := List.append_of_mem hmem
  rw [run_append]
  have hbefore := h (r.run before).1 ((onward_run r before).coherent hr)
    ((sequel_run r before).tidy htidy)
  exact (onward_run _ after).isOver hbefore

/-- **The course of a relay**, whatever happens in whatever order.  Its stage only moves on.
    It is reaped exactly when the exit has been reported, and the report is the first one
    that came.  Once the output has ended, a close has been asked for or the stream is gone,
    it is closed or reaped; so while it runs there are a stream and an output.  A wait or a
    close is answered after the report of the exit and with that exit, and when a close is
    answered the stream is gone. -/
theorem stages_of_life (command : String) (patience now : Rat) (pid : Option Int)
    (reading : Bool) (events : List RelayEvent) :
    let start := fresh command patience now pid reading
    let r := (start.run events).1
    (∀ more, r.stage.rank ≤ (start.run (events ++ more)).1.stage.rank
        ∧ ∀ x, r.exit = some x → (start.run (events ++ more)).1.exit = some x)
      ∧ (r.stage = .reaped ↔ r.exit.isSome = true)
      ∧ r.exit = events.findSome? RelayEvent.exit?
      ∧ (r.child.outputEnded = true ∨ RelayEvent.outputEnd ∈ events ∨ RelayEvent.close ∈ events
          ∨ r.stream.destroyed = true → r.stage = .closed ∨ r.stage = .reaped)
      ∧ (r.stage = .running → r.stream.destroyed = false ∧ r.child.outputEnded = false)
      ∧ ∀ before e after x, events = before ++ e :: after →
        (Output.notice (.waited x) ∈ ((start.run before).1.step e).2 →
          (before ++ [e]).findSome? RelayEvent.exit? = some x)
        ∧ (Output.notice (.closed x) ∈ ((start.run before).1.step e).2 →
          (before ++ [e]).findSome? RelayEvent.exit? = some x
            ∧ ((start.run before).1.step e).1.stream.destroyed = true) := by
  intro start r
  have hstart : start.Coherent := coherent_fresh command patience now pid reading
  have htidy : start.Tidy := tidy_fresh command patience now pid reading
  have hr : r.Coherent := (onward_run start events).coherent hstart
  refine ⟨fun more => ?_, hr.reaped, exit_run start events, ?_, fun hrunning => ?_, ?_⟩
  · rw [run_append]
    exact ⟨(onward_run r more).rank, (sequel_run r more).exit⟩
  · rintro (hended | hmem | hmem | hgone)
    · exact hr.ended hended
    · exact isOver_run_of_mem hstart htidy (fun _ => isOver_outputEnd) hmem
    · exact isOver_run_of_mem hstart htidy (fun s _ _ => isOver_close s) hmem
    · exact hr.gone hgone
  · have hnot : ¬ r.IsOver := by
      rw [IsOver, hrunning]
      decide
    exact ⟨Bool.eq_false_iff.mpr fun hgone => hnot (hr.gone hgone),
      Bool.eq_false_iff.mpr fun hended => hnot (hr.ended hended)⟩
  · intro before e after x _
    have hanswer : x ∈ Output.answers ((start.run before).1.step e).2 →
        (before ++ [e]).findSome? RelayEvent.exit? = some x := by
      intro hmem
      have hrun := exit_run start (before ++ [e])
      rw [(run_concat start before e).1] at hrun
      exact hrun.symm.trans (exit_of_mem_answers hmem)
    refine ⟨fun hmem => hanswer (List.mem_filterMap.mpr ⟨_, hmem, rfl⟩), fun hmem =>
      ⟨hanswer (List.mem_filterMap.mpr ⟨_, hmem, rfl⟩), ?_⟩⟩
    exact (goesOn_act e _).2 _ (mem_settle.mp hmem) rfl

/-- A process that runs, is waited for and closed, and ends when its input does. -/
theorem stages_of_life_closed :
    ((fresh "nc" 2000 0 (some 7) true).run [.spawned]).1.stream.destroyed = false
      ∧ ((fresh "nc" 2000 0 (some 7) true).run [.spawned, .wait, .close]).1.IsOver
      ∧ ([RelayEvent.spawned, .wait, .close, .exit ⟨some 0, none⟩]).findSome? RelayEvent.exit?
        = some ⟨some 0, none⟩
      ∧ (((fresh "nc" 2000 0 (some 7) true).run [.spawned, .wait, .close]).1.step
          (.exit ⟨some 0, none⟩)).1.stream.destroyed = true := by
  obtain ⟨-, -, -, -, hrunning, -⟩ := stages_of_life "nc" 2000 0 (some 7) true [.spawned]
  obtain ⟨-, -, -, hover, -, -⟩ :=
    stages_of_life "nc" 2000 0 (some 7) true [.spawned, .wait, .close]
  obtain ⟨-, -, -, -, -, hanswers⟩ := stages_of_life "nc" 2000 0 (some 7) true
    [.spawned, .wait, .close, .exit ⟨some 0, none⟩]
  obtain ⟨hwaited, hclosed⟩ := hanswers [.spawned, .wait, .close] (.exit ⟨some 0, none⟩) []
    ⟨some 0, none⟩ rfl
  refine ⟨(hrunning rfl).1, hover (Or.inr (Or.inr (Or.inl ?_))), hwaited ?_, (hclosed ?_).2⟩
  · exact List.mem_cons_of_mem _ (List.mem_cons_of_mem _ List.mem_cons_self)
  · exact List.mem_of_getElem? (i := 1) rfl
  · exact List.mem_of_getElem? (i := 4) rfl

end Relay

end SshDial

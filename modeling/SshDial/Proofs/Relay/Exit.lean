import SshDial.Proofs.Relay.Act

/-! # Exit — nothing is done to a process that has ended

    The report that the process has ended disarms every timer and finishes every close
    (`Relay.childExit_settles`).  From then on no rule has anything left to do to the
    process: no signal is sent, no timer is armed and no close is left waiting, whatever
    happens (`Relay.act_keeps_settled`).  `Relay.quiet_after_exit` is the headline.

    `Act.IsQuiet` is what one rule does about it, and there is one lemma for each rule.  They
    also say that the exit of a run is the one that was reported first (`Relay.exit_run`). -/

namespace SshDial

/-- The end of the process that an event reports, if it reports one. -/
def RelayEvent.exit? : RelayEvent → Option Exit
  | .exit x => some x
  | _ => none

namespace Relay

/-- What the end of the process is about: its report, the armed timers and the closes that
    wait for it. -/
def duties (r : Relay) : Option Exit × List Timer × Nat := (r.exit, r.timers, r.closing)

/-- The output is no signal to the process. -/
def IsSilent (o : Output) : Prop := o.signal? = none

/-- The process has ended, and there is nothing left to do about that. -/
structure Settled (r : Relay) : Prop where
  exited : r.exit.isSome = true
  timers : r.timers = []
  closing : r.closing = 0

end Relay

namespace Act

/-- The act has no say in whether the process has ended. -/
def KeepsExit (a : Act) : Prop :=
  ∀ x : Option Exit, a.Keeps (fun r => r.exit = x) fun _ => True

/-- The act does not end the process, and once the process has ended it leaves the duties
    as they are and sends no signal. -/
structure IsQuiet (a : Act) : Prop where
  exit : a.KeepsExit
  rest : ∀ d : Option Exit × List Timer × Nat, d.1.isSome = true →
    a.Keeps (fun r => r.duties = d) Relay.IsSilent

variable {a b : Act}

theorem keepsExit_modify {f : Relay → Relay} (h : ∀ r, (f r).exit = r.exit) :
    (modify f).KeepsExit :=
  fun _ => keeps_modify fun r hr => (h r).trans hr

theorem keepsExit_emit {outputs : List Output} : (emit outputs).KeepsExit :=
  fun _ => keeps_emit fun _ _ => trivial

theorem KeepsExit.andThen (ha : a.KeepsExit) (hb : b.KeepsExit) : (a.andThen b).KeepsExit :=
  fun x => (ha x).andThen (hb x)

theorem keepsExit_reading {f : Relay → Act} (h : ∀ r, (f r).KeepsExit) :
    (reading f).KeepsExit :=
  fun x => keeps_reading fun r _ => h r x

theorem isQuiet_skip : skip.IsQuiet := ⟨fun _ => keeps_skip, fun _ _ => keeps_skip⟩

theorem isQuiet_modify {f : Relay → Relay} (h : ∀ r, (f r).duties = r.duties) :
    (modify f).IsQuiet where
  exit := keepsExit_modify fun r => congrArg Prod.fst (h r)
  rest _ _ := keeps_modify fun r hr => (h r).trans hr

theorem isQuiet_emit {outputs : List Output} (h : ∀ o ∈ outputs, Relay.IsSilent o) :
    (emit outputs).IsQuiet :=
  ⟨keepsExit_emit, fun _ _ => keeps_emit h⟩

theorem isQuiet_notice {n : Notice} : (emit [.notice n]).IsQuiet :=
  isQuiet_emit (List.forall_mem_singleton.mpr rfl)

theorem isQuiet_log {entry : Log.Entry} : (emit [.log entry]).IsQuiet :=
  isQuiet_emit (List.forall_mem_singleton.mpr rfl)

theorem IsQuiet.andThen (ha : a.IsQuiet) (hb : b.IsQuiet) : (a.andThen b).IsQuiet :=
  ⟨ha.exit.andThen hb.exit, fun d hd => (ha.rest d hd).andThen (hb.rest d hd)⟩

theorem isQuiet_reading {f : Relay → Act} (h : ∀ r, (f r).IsQuiet) : (reading f).IsQuiet :=
  ⟨keepsExit_reading fun r => (h r).exit, fun d hd => keeps_reading fun r _ => (h r).rest d hd⟩

theorem IsQuiet.when {c : Relay → Bool} (ha : a.IsQuiet) : (Act.when c a).IsQuiet :=
  ⟨fun x => (ha.exit x).when c, fun d hd => (ha.rest d hd).when c⟩

/-- An act that is made only while the process runs. -/
theorem isQuiet_when_running {c : Relay → Bool} (ha : a.KeepsExit)
    (h : ∀ r, r.exit.isSome = true → c r = false) : (Act.when c a).IsQuiet := by
  refine ⟨fun x => (ha x).when c, fun d hd => keeps_when_never fun r hr => h r ?_⟩
  rw [← hr] at hd
  exact hd

/-- A change that is made only while the process runs, and what is done instead of it. -/
theorem isQuiet_reading_exit {f : Relay → Relay} {after : Exit → Act}
    (hf : ∀ r, (f r).exit = r.exit) (hafter : ∀ e, (after e).IsQuiet) :
    (reading fun r => match r.exit with
      | some e => after e
      | none => modify f).IsQuiet := by
  refine ⟨keepsExit_reading fun r => ?_, fun d hd => keeps_reading fun r hr => ?_⟩
  · cases r.exit with
    | some e => exact (hafter e).exit
    | none => exact keepsExit_modify hf
  · obtain ⟨e, he⟩ := Option.isSome_iff_exists.mp hd
    have hexit : r.exit = some e := (congrArg Prod.fst hr).trans he
    rw [hexit]
    exact (hafter e).rest d hd

end Act

namespace Relay

open Act

theorem duties_markClosed (r : Relay) : (markClosed r).duties = r.duties := by
  obtain ⟨stage, hstage⟩ := exists_markClosed r
  rw [hstage]
  rfl

theorem isQuiet_sendSignal (s : Signal) : (sendSignal s).IsQuiet := by
  refine isQuiet_when_running ?_ fun r hr => ?_
  · exact KeepsExit.andThen (keepsExit_modify fun _ => rfl) keepsExit_emit
  · have hexit : r.exit.isNone = false := Option.isNone_eq_false_iff.mpr hr
    rw [canSignal, hexit, Bool.and_false, Bool.false_and]

theorem isQuiet_reapLater (s : Signal) : (reapLater s).IsQuiet :=
  isQuiet_when_running (keepsExit_modify fun _ => rfl) fun _ hr =>
    Option.isNone_eq_false_iff.mpr hr

theorem isQuiet_dropPipes : dropPipes.IsQuiet := by
  refine IsQuiet.andThen (isQuiet_modify fun _ => rfl) (isQuiet_emit fun o ho => ?_)
  rcases List.mem_cons.mp ho with rfl | ho
  · rfl
  · obtain rfl := List.mem_singleton.mp ho
    rfl

theorem isQuiet_destroy (error : Option Refusal) : (destroy error).IsQuiet := by
  refine IsQuiet.when (isQuiet_reading fun r => ?_)
  refine IsQuiet.andThen (isQuiet_modify duties_markClosed) (IsQuiet.andThen ?_ ?_)
  · split
    · exact isQuiet_skip
    · exact isQuiet_sendSignal _
  · refine isQuiet_dropPipes.andThen ((isQuiet_reapLater _).andThen (isQuiet_emit ?_))
    refine List.forall_mem_append.mpr ⟨?_, List.forall_mem_singleton.mpr rfl⟩
    cases error with
    | none => exact List.forall_mem_nil _
    | some e => exact List.forall_mem_singleton.mpr rfl

theorem isQuiet_endInput : endInput.IsQuiet := by
  refine IsQuiet.when (IsQuiet.andThen (isQuiet_modify fun _ => rfl) (isQuiet_emit ?_))
  exact List.forall_mem_singleton.mpr rfl

theorem isQuiet_destroyIfThrough : destroyIfThrough.IsQuiet :=
  IsQuiet.when (isQuiet_destroy none)

theorem isQuiet_deliver : deliver.IsQuiet where
  exit _ _ hr := ⟨hr, fun _ _ => trivial⟩
  rest _ _ _ hr := ⟨hr, List.forall_mem_map.mpr fun _ _ => rfl⟩

theorem isQuiet_announceEnd : announceEnd.IsQuiet :=
  IsQuiet.when <| IsQuiet.andThen (isQuiet_modify fun _ => rfl) <|
    IsQuiet.andThen isQuiet_notice isQuiet_destroyIfThrough

theorem isQuiet_showEnd : showEnd.IsQuiet := IsQuiet.when isQuiet_announceEnd

theorem isQuiet_accept (chunk : String) : (accept chunk).IsQuiet := by
  refine isQuiet_reading fun r => ?_
  show (if r.stream.reading then _ else _ : Act).IsQuiet
  split
  · refine IsQuiet.andThen (isQuiet_modify fun _ => rfl) ?_
    split
    · exact isQuiet_emit (List.forall_mem_nil _)
    · exact isQuiet_notice
  · refine IsQuiet.andThen (isQuiet_modify fun _ => rfl) (IsQuiet.when (isQuiet_emit ?_))
    exact List.forall_mem_singleton.mpr rfl

theorem isQuiet_endOutput : endOutput.IsQuiet :=
  IsQuiet.andThen (isQuiet_modify fun _ => duties_markClosed _) isQuiet_showEnd

theorem isQuiet_finish : finish.IsQuiet :=
  IsQuiet.when <| IsQuiet.andThen isQuiet_endInput <|
    IsQuiet.andThen (isQuiet_modify fun _ => rfl) isQuiet_destroyIfThrough

theorem isQuiet_report (p : Parcel) (n : Notice) : (report p n).IsQuiet := by
  rw [report]
  split
  · exact isQuiet_notice
  · exact isQuiet_emit (List.forall_mem_nil _)

theorem isQuiet_abandon (why : Refusal) : (abandon why).IsQuiet :=
  isQuiet_reading fun _ => IsQuiet.andThen (isQuiet_modify fun _ => rfl) <|
    isQuiet_emit (List.forall_mem_map.mpr fun _ _ => rfl)

theorem isQuiet_failWrite (p : Parcel) (error : Value) : (failWrite p error).IsQuiet :=
  isQuiet_reading fun _ => (isQuiet_report p _).andThen <|
    (isQuiet_destroy _).andThen (isQuiet_abandon _)

theorem isQuiet_handOver (p : Parcel) (later : List Parcel) : (handOver p later).IsQuiet :=
  IsQuiet.andThen (isQuiet_modify fun _ => rfl)
    (isQuiet_emit (List.forall_mem_singleton.mpr rfl))

theorem isQuiet_finishIfDue : finishIfDue.IsQuiet := isQuiet_finish.when

theorem isQuiet_passOn (texts : List Parcel) : (passOn texts).IsQuiet := by
  induction texts with
  | nil => exact isQuiet_finishIfDue
  | cons p later ih =>
      refine (isQuiet_handOver p later).andThen (isQuiet_reading fun r => ?_)
      split
      · exact isQuiet_skip
      · split
        · exact (isQuiet_report p _).andThen ih
        · exact isQuiet_failWrite p _

theorem isQuiet_passWaiting : passWaiting.IsQuiet := isQuiet_reading fun _ => isQuiet_passOn _

theorem isQuiet_submit (p : Parcel) : (submit p).IsQuiet :=
  IsQuiet.andThen (isQuiet_modify fun _ => rfl) isQuiet_passWaiting.when

theorem isQuiet_writeTaken : writeTaken.IsQuiet := by
  refine isQuiet_reading fun r => ?_
  split
  · exact isQuiet_skip
  · refine IsQuiet.andThen (isQuiet_modify fun _ => rfl) ?_
    split
    · refine (isQuiet_report _ _).andThen (isQuiet_reading fun r => ?_)
      split
      · exact isQuiet_abandon _
      · exact isQuiet_passWaiting
    · exact isQuiet_failWrite _ _

theorem isQuiet_write (text : String) : (write text).IsQuiet := by
  refine isQuiet_reading fun r => ?_
  split
  · exact IsQuiet.andThen isQuiet_notice (isQuiet_destroy _)
  · split
    · exact isQuiet_notice
    · exact isQuiet_submit _

theorem isQuiet_endWrites : endWrites.IsQuiet :=
  IsQuiet.when (IsQuiet.andThen (isQuiet_modify fun _ => rfl) isQuiet_finishIfDue)

theorem isQuiet_endWritesWith (text : String) : (endWritesWith text).IsQuiet := by
  refine isQuiet_reading fun r => ?_
  split
  · exact isQuiet_destroy _
  · split
    · exact isQuiet_skip
    · exact IsQuiet.andThen (isQuiet_modify fun _ => rfl) (isQuiet_submit _)

theorem isQuiet_beginReading : beginReading.IsQuiet :=
  IsQuiet.when <| IsQuiet.andThen (isQuiet_modify fun _ => rfl) <|
    isQuiet_deliver.andThen isQuiet_showEnd

theorem isQuiet_readNext : readNext.IsQuiet :=
  IsQuiet.when <| IsQuiet.andThen
    (isQuiet_reading fun _ => isQuiet_emit (List.forall_mem_map.mpr fun _ _ => rfl)) <|
    IsQuiet.andThen (isQuiet_modify fun _ => rfl) (IsQuiet.when isQuiet_announceEnd)

/-- A close after the end arms no timer: there is nothing to wait for. -/
theorem isQuiet_close : close.IsQuiet :=
  IsQuiet.andThen (isQuiet_modify duties_markClosed) <|
    isQuiet_endInput.andThen <| isQuiet_reading_exit (fun _ => rfl) fun _ =>
      IsQuiet.andThen (isQuiet_destroy none) isQuiet_notice

/-- Every event is answered quietly but the report of the end and a due timer. -/
theorem isQuiet_act {e : RelayEvent} (hexit : ∀ x, e ≠ .exit x) (htimer : e ≠ .timer) :
    (act e).IsQuiet := by
  cases e with
  | spawned => exact IsQuiet.when (isQuiet_modify fun _ => rfl)
  | childError error => exact IsQuiet.when (isQuiet_destroy _)
  | output chunk => exact IsQuiet.when (isQuiet_accept chunk)
  | outputEnd => exact IsQuiet.when isQuiet_endOutput
  | outputError error => exact IsQuiet.when (isQuiet_reading fun _ => isQuiet_destroy _)
  | inputError error => exact IsQuiet.when (isQuiet_reading fun _ => isQuiet_destroy _)
  | exit x => exact absurd rfl (hexit x)
  | mark marked => exact isQuiet_modify fun _ => rfl
  | failWrites error => exact isQuiet_modify fun _ => rfl
  | stall stalled => exact isQuiet_modify fun _ => rfl
  | taken => exact isQuiet_writeTaken
  | read => exact isQuiet_beginReading
  | pause => exact isQuiet_modify fun _ => rfl
  | readNext => exact isQuiet_readNext
  | write text => exact isQuiet_write text
  | endWrites text =>
      cases text with
      | none => exact isQuiet_endWrites
      | some text => exact isQuiet_endWritesWith text
  | kill signal => exact isQuiet_sendSignal signal
  | wait => exact isQuiet_reading_exit (fun _ => rfl) fun _ => isQuiet_notice
  | close => exact isQuiet_close
  | destroy message => exact isQuiet_destroy _
  | timer => exact absurd rfl htimer
  | pass ms => exact isQuiet_modify fun _ => rfl
  | programEnd => exact IsQuiet.when (isQuiet_sendSignal _)

/-- A timer acts on a process that runs, and does not end it. -/
theorem keepsExit_fireNext : fireNext.KeepsExit := by
  refine keepsExit_reading fun r => ?_
  split
  · exact isQuiet_skip.exit
  · rename_i t _
    refine KeepsExit.andThen (keepsExit_modify fun _ => rfl) ?_
    cases t.purpose with
    | closeTerm =>
        rw [fire]
        exact keepsExit_reading fun _ => isQuiet_log.exit.andThen <|
          (isQuiet_sendSignal _).exit.andThen (keepsExit_modify fun _ => rfl)
    | closeKill =>
        rw [fire]
        exact keepsExit_reading fun _ => isQuiet_log.exit.andThen <|
          (isQuiet_sendSignal _).exit.andThen (keepsExit_modify fun _ => rfl)
    | drop signal => exact (isQuiet_sendSignal signal).exit

theorem keepsExit_act {e : RelayEvent} (hexit : ∀ x, e ≠ .exit x) : (act e).KeepsExit := by
  by_cases htimer : e = .timer
  · rw [htimer]
    exact keepsExit_fireNext
  · exact (isQuiet_act hexit htimer).exit

/-! ## The report of the exit -/

theorem keepsExit_answerWaiters (e : Exit) : (answerWaiters e).KeepsExit := by
  refine keepsExit_reading fun r => KeepsExit.andThen (keepsExit_modify fun _ => rfl) <|
    keepsExit_emit.andThen <| KeepsExit.andThen ?_ keepsExit_emit
  split
  · exact isQuiet_skip.exit
  · exact (isQuiet_destroy none).exit

/-- The first report of the exit stands. -/
theorem exit_childExit (x : Exit) (r : Relay) : (childExit x r).1.exit = r.exit.or (some x) := by
  cases hexit : r.exit with
  | none =>
      have hreport : (childExit x).Ensures (fun r => r.exit = none) (fun r => r.exit = some x)
          fun _ => True := by
        refine ensures_when ?_ fun r hr hsome => ?_
        · have hmark : (Act.modify fun r =>
              { r with exit := some x, stage := .reaped, tracked := false }).Ensures
              (fun r => r.exit = none ∧ r.exit.isNone = true) (fun r => r.exit = some x)
              fun _ => True := ensures_modify fun _ _ => rfl
          have hlog : (reading fun r => emit [.log (exitEntry r x)]).KeepsExit :=
            keepsExit_reading fun _ => keepsExit_emit
          refine hmark.andThen <| (hlog (some x)).andThen <| Ensures.andThen
            (keepsExit_reading (fun r => ?_) (some x)) (keepsExit_answerWaiters x (some x))
          split
          · exact (isQuiet_destroy _).exit
          · exact isQuiet_skip.exit
        · rw [hr] at hsome
          cases hsome
      exact (hreport r hexit).1
  | some y =>
      rw [childExit, Act.when, hexit]
      exact hexit

theorem exit_step (r : Relay) (e : RelayEvent) : (r.step e).1.exit = r.exit.or e.exit? := by
  by_cases hexit : ∃ x, e = .exit x
  · obtain ⟨x, rfl⟩ := hexit
    exact exit_childExit x r
  · have hnone : e.exit? = none := by
      cases e with
      | exit x => exact absurd ⟨x, rfl⟩ hexit
      | _ => rfl
    rw [hnone, Option.or_none]
    exact (keepsExit_act (fun x hx => hexit ⟨x, hx⟩) r.exit r rfl).1

/-- The exit of a run is the one that was reported first. -/
theorem exit_run (r : Relay) (events : List RelayEvent) :
    (r.run events).1.exit = r.exit.or (events.findSome? RelayEvent.exit?) := by
  induction events generalizing r with
  | nil => exact Option.or_none.symm
  | cons e events ih =>
      rw [run, ih, exit_step, Option.or_assoc, List.findSome?_cons]
      cases e.exit? with
      | none => rfl
      | some x => rfl

/-! ## After the end -/

theorem keeps_exited_of_isQuiet {a : Act} (h : a.IsQuiet) :
    a.Keeps (fun r => r.exit.isSome = true) IsSilent := by
  intro r hr
  obtain ⟨hduties, hsilent⟩ := h.rest r.duties hr r rfl
  have hexit : (a r).1.exit = r.exit := congrArg Prod.fst hduties
  exact ⟨(congrArg Option.isSome hexit).trans hr, hsilent⟩

theorem keeps_settled_of_isQuiet {a : Act} (h : a.IsQuiet) : a.Keeps Settled IsSilent := by
  rintro r ⟨hexited, htimers, hclosing⟩
  obtain ⟨hduties, hsilent⟩ := h.rest r.duties hexited r rfl
  obtain ⟨hexit', hrest⟩ := Prod.mk.inj hduties
  obtain ⟨htimers', hclosing'⟩ := Prod.mk.inj hrest
  exact ⟨⟨(congrArg Option.isSome hexit').trans hexited, htimers'.trans htimers,
    hclosing'.trans hclosing⟩, hsilent⟩

/-- The callers are answered, and that is the end of every timer and close. -/
theorem answerWaiters_settles (e : Exit) :
    (answerWaiters e).Ensures (fun r => r.exit.isSome = true) Settled IsSilent := by
  refine ensures_reading fun r _ => ?_
  have hclear : (Act.modify fun r => { r with timers := [], waiting := 0, closing := 0 }).Ensures
      (fun r => r.exit.isSome = true) Settled IsSilent :=
    ensures_modify fun r hr => ⟨hr, rfl, rfl⟩
  have hanswers : ∀ (n : Nat) (notice : Notice),
      (emit (List.replicate n (.notice notice))).IsQuiet := by
    intro n notice
    refine isQuiet_emit fun o ho => ?_
    obtain rfl := List.eq_of_mem_replicate ho
    rfl
  refine hclear.andThen (keeps_settled_of_isQuiet ?_)
  refine (hanswers _ _).andThen (IsQuiet.andThen ?_ (hanswers _ _))
  split
  · exact isQuiet_skip
  · exact isQuiet_destroy none

/-- The report that the process has ended settles everything, and sends no signal on the
    way: the relay that a failed launch destroys has ended by then. -/
theorem childExit_settles (e : Exit) :
    (childExit e).Ensures (fun r => r.exit = none) Settled IsSilent := by
  refine ensures_when ?_ fun r hr hsome => ?_
  · have hmark : (Act.modify fun r =>
        { r with exit := some e, stage := .reaped, tracked := false }).Ensures
        (fun r => r.exit = none ∧ r.exit.isNone = true) (fun r => r.exit.isSome = true)
        IsSilent := ensures_modify fun _ _ => rfl
    have hlog : (reading fun r => emit [.log (exitEntry r e)]).IsQuiet :=
      isQuiet_reading fun _ => isQuiet_log
    refine hmark.andThen <| Ensures.andThen (keeps_exited_of_isQuiet hlog) <|
      Ensures.andThen (keeps_exited_of_isQuiet (isQuiet_reading fun r => ?_))
        (answerWaiters_settles e)
    split
    · exact isQuiet_destroy _
    · exact isQuiet_skip
  · rw [hr] at hsome
    exact nomatch hsome

/-- **One event at a time.** Nothing that happens after the end unsettles the relay. -/
theorem act_keeps_settled (e : RelayEvent) : (act e).Keeps Settled IsSilent := by
  by_cases hexit : ∃ x, e = .exit x
  · obtain ⟨x, rfl⟩ := hexit
    exact keeps_when_never fun r hr => Option.isNone_eq_false_iff.mpr hr.exited
  by_cases htimer : e = .timer
  · rw [htimer, act, fireNext]
    refine keeps_reading fun r hr => ?_
    rw [hr.timers]
    exact keeps_skip
  · exact keeps_settled_of_isQuiet
      (isQuiet_act (fun x hx => hexit ⟨x, hx⟩) htimer)

/-- A relay is settled as soon as its process has ended. -/
theorem act_keeps_settled_of_exit (e : RelayEvent) :
    (act e).Keeps (fun r => r.exit.isSome = true → Settled r) fun _ => True := by
  intro r hr
  refine ⟨fun hexited => ?_, fun _ _ => trivial⟩
  cases hnow : r.exit with
  | some x =>
      have hsettled : Settled r := hr (Option.isSome_of_eq_some hnow)
      exact (act_keeps_settled e r hsettled).1
  | none =>
      by_cases hexit : ∃ x, e = .exit x
      · obtain ⟨x, rfl⟩ := hexit
        exact (childExit_settles x r hnow).1
      · -- No other event ends the process, so it cannot have ended now.
        have hstill := (keepsExit_act (fun x hx => hexit ⟨x, hx⟩) none r hnow).1
        rw [hstill] at hexited
        exact nomatch hexited

/-- **Nothing is done to a process that has ended.** Whatever happened before the report of
    the end and whatever happens after it, from the report on no signal is sent, and
    whenever the relay is at rest no timer is armed and no close is left waiting. -/
theorem quiet_after_exit (command : String) (patience now : Rat) (pid : Option Int)
    (reading : Bool) (before : List RelayEvent) (e : Exit) (after : List RelayEvent) :
    let r := ((fresh command patience now pid reading).run before).1
    (∀ o ∈ (r.run (.exit e :: after)).2, o.signal? = none)
      ∧ (r.run (.exit e :: after)).1.timers = []
      ∧ (r.run (.exit e :: after)).1.closing = 0 := by
  intro r
  have hfresh : (fresh command patience now pid reading).exit.isSome = true →
      Settled (fresh command patience now pid reading) := fun hsome => (nomatch hsome)
  have hbefore : r.exit.isSome = true → Settled r :=
    (run_keeps act_keeps_settled_of_exit hfresh before).1
  have hfirst : Settled (r.step (.exit e)).1 ∧ ∀ o ∈ (r.step (.exit e)).2, IsSilent o := by
    cases hnow : r.exit with
    | none => exact @step_ensures _ _ _ (.exit e) (childExit_settles e) r hnow
    | some x =>
        exact step_ensures (act_keeps_settled _) (hbefore (Option.isSome_of_eq_some hnow))
  obtain ⟨hlast, hrest⟩ := run_keeps act_keeps_settled hfirst.1 after
  refine ⟨fun o ho => ?_, hlast.timers, hlast.closing⟩
  rcases List.mem_append.mp ho with ho | ho
  · exact hfirst.2 o ho
  · exact hrest o ho

end Relay

end SshDial

import SshDial.Proofs.Relay.Move

/-! # Answers — what a caller may rely on who waits or closes

    A wait or a close is answered when the end of the process has been reported, and with
    that report (`Relay.exit_of_mem_answers`).  The report is never taken back, a stream that
    is gone stays so, and the pipes to the process are let go of with the stream
    (`Relay.sequel_step`). -/

namespace SshDial

namespace Act

/-- The act answers nobody. -/
def IsMute (a : Act) : Prop := a.Keeps (fun _ => True) fun o => o.answer? = none

variable {a b : Act}

theorem IsMute.answers (h : a.IsMute) (r : Relay) : Output.answers (a r).2 = [] :=
  List.filterMap_eq_nil_iff.mpr (h r trivial).2

theorem isMute_modify {f : Relay → Relay} : (modify f).IsMute := keeps_modify fun _ _ => trivial

theorem isMute_emit {outputs : List Output} (h : ∀ o ∈ outputs, o.answer? = none) :
    (emit outputs).IsMute := keeps_emit h

theorem isMute_log {entry : Log.Entry} : (emit [.log entry]).IsMute :=
  isMute_emit (List.forall_mem_singleton.mpr rfl)

theorem IsMute.andThen (ha : a.IsMute) (hb : b.IsMute) : (a.andThen b).IsMute :=
  Keeps.andThen ha hb

theorem isMute_reading {f : Relay → Act} (h : ∀ r, (f r).IsMute) : (reading f).IsMute :=
  keeps_reading fun r _ => h r

theorem IsMute.when {c : Relay → Bool} (ha : a.IsMute) : (Act.when c a).IsMute := Keeps.when ha c

end Act

namespace Relay

open Act

variable {e : RelayEvent} {r s : Relay} {a : Act}

/-! ## Acts that answer nobody -/

theorem isMute_sendSignal (s : Signal) : (sendSignal s).IsMute :=
  (isMute_modify.andThen (isMute_emit (List.forall_mem_singleton.mpr rfl))).when

theorem isMute_dropPipes : dropPipes.IsMute :=
  isMute_modify.andThen <| isMute_emit <|
    List.forall_mem_cons.mpr ⟨rfl, List.forall_mem_singleton.mpr rfl⟩

theorem isMute_endInput : endInput.IsMute :=
  (isMute_modify.andThen (isMute_emit (List.forall_mem_singleton.mpr rfl))).when

theorem isMute_destroy (why : Option Refusal) : (destroy why).IsMute := by
  refine (isMute_reading fun r => ?_).when
  refine isMute_modify.andThen <| IsMute.andThen ?_ <| isMute_dropPipes.andThen <|
    isMute_modify.when.andThen <| isMute_emit ?_
  · split
    · exact keeps_skip
    · exact isMute_sendSignal .term
  · cases why with
    | none => exact List.forall_mem_singleton.mpr rfl
    | some w => exact List.forall_mem_cons.mpr ⟨rfl, List.forall_mem_singleton.mpr rfl⟩

theorem isMute_handOver (p : Parcel) (later : List Parcel) : (handOver p later).IsMute :=
  isMute_modify.andThen (isMute_emit (List.forall_mem_singleton.mpr rfl))

theorem isMute_fire (purpose : Purpose) : (fire purpose).IsMute := by
  unfold fire
  cases purpose with
  | closeTerm =>
      refine isMute_reading fun r => isMute_log.andThen ?_
      exact (isMute_sendSignal .term).andThen isMute_modify
  | closeKill =>
      refine isMute_reading fun r => isMute_log.andThen ?_
      exact (isMute_sendSignal .kill).andThen isMute_modify
  | drop s => exact isMute_sendSignal s

theorem isMute_fireNext : fireNext.IsMute := by
  refine isMute_reading fun r => ?_
  split
  · exact keeps_skip
  · exact isMute_modify.andThen (isMute_fire _)

/-! ## What lasts -/

/-- What the end of a relay is about: how the process has ended, and what is gone. -/
def Vital.remains (v : Vital) : Option Exit × Bool × Bool × Bool :=
  (v.exit, v.destroyed, v.inputDestroyed, v.outputDestroyed)

/-- The pipes to the process are let go of when the stream is. -/
structure Tidy (r : Relay) : Prop where
  input : r.child.inputDestroyed = r.stream.destroyed
  output : r.child.outputDestroyed = r.stream.destroyed

/-- `s` may come after `r`: what lasts has lasted. -/
structure Sequel (r s : Relay) : Prop where
  exit : ∀ x, r.exit = some x → s.exit = some x
  gone : r.stream.destroyed = true → s.stream.destroyed = true
  tidy : r.Tidy → s.Tidy

theorem Sequel.refl (r : Relay) : Sequel r r := ⟨fun _ => id, id, id⟩

theorem Sequel.trans {t : Relay} (h : Sequel r s) (h' : Sequel s t) : Sequel r t where
  exit x hx := h'.exit x (h.exit x hx)
  gone hgone := h'.gone (h.gone hgone)
  tidy htidy := h'.tidy (h.tidy htidy)

theorem Sequel.of_remains (h : s.vital.remains = r.vital.remains) : Sequel r s := by
  obtain ⟨hexit, hrest⟩ := Prod.mk.inj h
  obtain ⟨hgone, hrest⟩ := Prod.mk.inj hrest
  obtain ⟨hinput, houtput⟩ := Prod.mk.inj hrest
  exact ⟨fun x hx => hexit.trans hx, fun h => hgone.trans h, fun htidy =>
    ⟨hinput.trans (htidy.input.trans hgone.symm), houtput.trans (htidy.output.trans hgone.symm)⟩⟩

theorem sequel_destroy (why : Option Refusal) (r : Relay) : Sequel r (destroy why r).1 := by
  cases hopen : r.stream.destroyed with
  | true =>
      rw [destroy_of_destroyed why hopen]
      exact Sequel.refl r
  | false =>
      have hremains : (destroy why r).1.vital.remains = (r.exit, true, true, true) :=
        congrArg Vital.remains (vital_destroy why hopen)
      obtain ⟨hexit, hrest⟩ := Prod.mk.inj hremains
      obtain ⟨hgone, hrest⟩ := Prod.mk.inj hrest
      obtain ⟨hinput, houtput⟩ := Prod.mk.inj hrest
      exact ⟨fun x hx => hexit.trans hx, fun _ => hgone, fun _ =>
        ⟨hinput.trans hgone.symm, houtput.trans hgone.symm⟩⟩

/-- A move comes to nothing that does not last. -/
theorem sequel_move (h : Move e r a) : Sequel r (a r).1 := by
  cases h with
  | note hsame => exact .of_remains (congrArg Vital.remains hsame)
  | signal s _ => exact .of_remains (congrArg Vital.remains (vital_sendSignal s r))
  | destroy why _ _ => exact sequel_destroy why r
  | endInput _ =>
      obtain ⟨ended, hended⟩ := exists_vital_endInput r
      exact .of_remains (congrArg Vital.remains hended :)
  | endOutput _ _ => exact .of_remains (congrArg Vital.remains (vital_withOutputEnded r) :)
  | exit x _ hexit =>
      refine ⟨fun y hy => ?_, id, fun htidy => ⟨htidy.input, htidy.output⟩⟩
      rw [hexit] at hy
      exact nomatch hy
  | fire _ =>
      obtain ⟨timers, now, hvital⟩ := vital_fireNext r
      exact .of_remains (congrArg Vital.remains hvital :)
  | _ => exact .of_remains rfl

/-- A move answers with the exit that has been reported. -/
theorem answers_move (h : Move e r a) : ∀ x ∈ Output.answers (a r).2, r.exit = some x := by
  have hmute : a.IsMute → ∀ x ∈ Output.answers (a r).2, r.exit = some x := by
    intro hmute x hx
    rw [hmute.answers r] at hx
    exact nomatch hx
  cases h with
  | tell _ hanswer => exact hanswer
  | signal s _ => exact hmute (isMute_sendSignal s)
  | destroy why _ _ => exact hmute (isMute_destroy why)
  | endInput _ => exact hmute isMute_endInput
  | handOver p later _ _ => exact hmute (isMute_handOver p later)
  | fire _ => exact hmute isMute_fireNext
  | _ => exact hmute isMute_modify

theorem Moves.sequel {outputs : List Output} (h : Moves e r outputs s) : Sequel r s := by
  induction h with
  | done r => exact Sequel.refl r
  | move first _ ih => exact (sequel_move first).trans ih

theorem Moves.answers {outputs : List Output} (h : Moves e r outputs s) :
    ∀ x ∈ Output.answers outputs, s.exit = some x := by
  induction h with
  | done r => exact List.forall_mem_nil _
  | move first rest ih =>
      rw [Output.answers_append]
      refine List.forall_mem_append.mpr ⟨fun x hx => ?_, ih⟩
      exact ((sequel_move first).trans rest.sequel).exit x (answers_move first x hx)

/-! ## Events and runs -/

/-- Whatever happens, what lasts lasts. -/
theorem sequel_step (r : Relay) (e : RelayEvent) : Sequel r (r.step e).1 := (moves_act e r).sequel

/-- **Nobody is answered before the end.** When a wait or a close is answered, the process
    has ended, and in the way that the answer says. -/
theorem exit_of_mem_answers {x : Exit} (h : x ∈ Output.answers (r.step e).2) :
    (r.step e).1.exit = some x := by
  refine (moves_act e r).answers x ?_
  obtain ⟨o, ho, hx⟩ := List.mem_filterMap.mp h
  exact List.mem_filterMap.mpr ⟨o, mem_settle.mp ho, hx⟩

theorem tidy_fresh (command : String) (patience now : Rat) (pid : Option Int) (reading : Bool) :
    (fresh command patience now pid reading).Tidy :=
  ⟨rfl, rfl⟩

end Relay

end SshDial

import SshDial.Proofs.Relay.Faithful

/-! # InputOrder — what comes last on the way to a process

    The input of a process is ended from two sides.  When the caller ends its writing, that
    waits for every text before it, and nothing comes after it: the stream takes on no more
    texts (`Relay.Through`).  A close ends the input at once.  It neither waits for the
    texts that are on their way nor keeps the stream from taking on more of them, and so
    they are passed on after the end of the input.

    `Relay.input_order` says that this is the only way: the input is ended at most once,
    nothing is written after it is let go of, and something is written after its end exactly
    if a close ended it and a text is passed on later. -/

namespace SshDial

/-- Is a text passed on after such a call? -/
def WritesAfter (c : ChildCall) (calls : List ChildCall) : Prop :=
  ∃ before after text, calls = before ++ c :: after ∧ .write text ∈ after

theorem not_writesAfter_nil (c : ChildCall) : ¬WritesAfter c [] := by
  rintro ⟨before, after, text, hsplit, -⟩
  exact absurd hsplit (by simp)

/-- A call and a text after it stand in one part, or the call in the first and the text in the
    second. -/
theorem writesAfter_append {c : ChildCall} {calls more : List ChildCall} :
    WritesAfter c (calls ++ more)
      ↔ WritesAfter c calls ∨ WritesAfter c more ∨ c ∈ calls ∧ ∃ text, .write text ∈ more := by
  constructor
  · rintro ⟨before, after, text, hsplit, htext⟩
    rcases List.append_eq_append_iff.mp hsplit with ⟨mid, hbefore, hmore⟩ | ⟨mid, hcalls, hmore⟩
    · exact Or.inr (Or.inl ⟨mid, after, text, hmore, htext⟩)
    · cases mid with
      | nil => exact Or.inr (Or.inl ⟨[], after, text, hmore.symm, htext⟩)
      | cons d mid =>
          obtain ⟨rfl, rfl⟩ := List.cons.inj hmore
          rcases List.mem_append.mp htext with hfirst | hlater
          · exact Or.inl ⟨before, mid, text, hcalls, hfirst⟩
          · refine Or.inr (Or.inr ⟨?_, text, hlater⟩)
            rw [hcalls]
            exact List.mem_append_right _ List.mem_cons_self
  · rintro (⟨before, after, text, rfl, htext⟩ | ⟨before, after, text, rfl, htext⟩ | ⟨hc, text, htext⟩)
    · refine ⟨before, after ++ more, text, ?_, List.mem_append_left _ htext⟩
      rw [List.append_assoc, List.cons_append]
    · exact ⟨calls ++ before, after, text, (List.append_assoc _ _ _).symm, htext⟩
    · obtain ⟨before, after, rfl⟩ := List.append_of_mem hc
      refine ⟨before, after ++ more, text, ?_, List.mem_append_right _ htext⟩
      rw [List.append_assoc, List.cons_append]

/-- Without a text there is none after a call. -/
theorem not_writesAfter_of_no_write {c : ChildCall} {calls : List ChildCall}
    (h : ∀ text, .write text ∉ calls) : ¬WritesAfter c calls := by
  rintro ⟨before, after, text, rfl, htext⟩
  exact h text (List.mem_append_right _ (List.mem_cons_of_mem _ htext))

namespace Relay

variable {e : RelayEvent} {r s : Relay} {a : Act} {past : List ChildCall} {c : ChildCall}
  {events : List RelayEvent}

/-! ## What one move does to the input -/

/-- A move that passes a text on does nothing else, and the stream is there and has a text
    that waits. -/
theorem write_of_move (h : Move e r a) {text : String}
    (htext : .write text ∈ Output.calls (a r).2) :
    Output.calls (a r).2 = [.write text] ∧ r.stream.destroyed = false ∧ r.stream.backlog ≠ [] := by
  obtain ⟨p, later, rfl, rfl, hopen, hbacklog⟩ := h.origin _ htext
  refine ⟨rfl, hopen, fun hempty => ?_⟩
  rw [hempty] at hbacklog
  exact nomatch hbacklog

theorem not_writesAfter_move (h : Move e r a) : ¬WritesAfter c (Output.calls (a r).2) := by
  rintro ⟨before, after, text, hsplit, htext⟩
  have hmem : .write text ∈ Output.calls (a r).2 := by
    rw [hsplit]
    exact List.mem_append_right _ (List.mem_cons_of_mem _ htext)
  -- The text is the only call, so it cannot come after one.
  have hlength := congrArg List.length ((write_of_move h hmem).1.symm.trans hsplit)
  simp only [List.length_append, List.length_cons, List.length_nil] at hlength
  have hpos : 0 < after.length := List.length_pos_of_mem htext
  omega

/-- If something holds once a call has been made, and it keeps texts from being passed on, then
    none is passed on after the call. -/
theorem not_writesAfter_grow {P : Prop} (h : Move e r a) (hpast : ¬WritesAfter c past)
    (hcalled : c ∈ past → P) (hnone : P → ∀ text, .write text ∉ Output.calls (a r).2) :
    ¬WritesAfter c (past ++ Output.calls (a r).2) := by
  rw [writesAfter_append]
  rintro (hold | hnew | ⟨hc, text, htext⟩)
  · exact hpast hold
  · exact not_writesAfter_move h hnew
  · exact hnone (hcalled hc) text htext

/-- The input of the process has been ended or let go of. -/
def Vital.shut (v : Vital) : Bool := v.inputEnded || v.inputDestroyed

/-- What does not come back: the stream, and the input. -/
def Vital.latches (v : Vital) : Bool × Bool := (v.destroyed, v.shut)

/-- A stream that is gone stays so, and so does an input that is shut. -/
theorem latch_move (h : Move e r a) :
    (r.stream.destroyed = true → (a r).1.stream.destroyed = true)
      ∧ (r.vital.shut = true → (a r).1.vital.shut = true) := by
  have hkeep : (a r).1.vital.latches = r.vital.latches →
      (r.stream.destroyed = true → (a r).1.stream.destroyed = true)
        ∧ (r.vital.shut = true → (a r).1.vital.shut = true) := fun hsame =>
    ⟨fun hgone => (Prod.mk.inj hsame).1.trans hgone, fun hshut => (Prod.mk.inj hsame).2.trans hshut⟩
  cases h with
  | note hsame => exact hkeep (congrArg Vital.latches hsame)
  | signal s _ => exact hkeep (congrArg Vital.latches (vital_sendSignal s r))
  | destroy why hopen _ =>
      refine ⟨fun _ => destroyed_destroy why r, fun _ => ?_⟩
      rw [vital_destroy why hopen]
      exact Bool.or_true _
  | endInput _ =>
      have hvital := vital_endInput r
      split at hvital
      · refine ⟨fun hgone => (congrArg Vital.destroyed hvital :).trans hgone, fun _ => ?_⟩
        rw [hvital]
        rfl
      · exact hkeep (congrArg Vital.latches hvital)
  | endOutput _ _ => exact hkeep (congrArg Vital.latches (vital_withOutputEnded r) :)
  | fire _ =>
      obtain ⟨timers, now, hvital⟩ := vital_fireNext r
      exact hkeep (congrArg Vital.latches hvital :)
  | _ => exact ⟨id, id⟩

/-! ## At most one end, and nothing after letting go -/

/-- The input has been ended at most once, and not without being shut. -/
structure EndedOnce (past : List ChildCall) (r : Relay) : Prop where
  once : past.count .endInput ≤ 1
  shut : .endInput ∈ past → r.vital.shut = true

theorem endedOnce_move (h : Move e r a) (hr : EndedOnce past r) :
    EndedOnce (past ++ Output.calls (a r).2) (a r).1 := by
  by_cases hend : .endInput ∈ Output.calls (a r).2
  · obtain ⟨rfl, -, hdestroyed, hended⟩ := h.origin _ hend
    have hopen : (!r.child.inputDestroyed && !r.child.inputEnded) = true := by
      rw [hdestroyed, hended]
      rfl
    have hfirst : .endInput ∉ past := by
      intro hmem
      have hshut := hr.shut hmem
      rw [Vital.shut] at hshut
      rcases Bool.or_eq_true_iff.mp hshut with hno | hno
      · exact Bool.eq_false_iff.mp hended hno
      · exact Bool.eq_false_iff.mp hdestroyed hno
    rw [calls_endInput, if_pos hopen]
    refine ⟨?_, fun _ => ?_⟩
    · have hcount : (past ++ [ChildCall.endInput]).count .endInput = 1 := by
        rw [List.count_append, List.count_eq_zero.mpr hfirst, List.count_singleton_self]
      exact Nat.le_of_eq hcount
    · rw [vital_endInput, if_pos hopen]
      rfl
  · refine ⟨?_, fun hmem => ?_⟩
    · rw [List.count_append, List.count_eq_zero.mpr hend]
      exact hr.once
    · rcases List.mem_append.mp hmem with hmem | hmem
      · exact (latch_move h).2 (hr.shut hmem)
      · exact absurd hmem hend

/-- Nothing is passed on after the input has been let go of, for then the stream is gone. -/
structure LetGo (past : List ChildCall) (r : Relay) : Prop where
  last : ¬WritesAfter .destroyInput past
  gone : .destroyInput ∈ past → r.stream.destroyed = true

theorem letGo_move (h : Move e r a) (hr : LetGo past r) :
    LetGo (past ++ Output.calls (a r).2) (a r).1 := by
  refine ⟨not_writesAfter_grow h hr.last hr.gone fun hgone text htext => ?_, fun hmem => ?_⟩
  · exact Bool.eq_false_iff.mp (write_of_move h htext).2.1 hgone
  · rcases List.mem_append.mp hmem with hmem | hmem
    · exact (latch_move h).1 (hr.gone hmem)
    · obtain ⟨why, rfl⟩ := h.origin _ hmem
      exact destroyed_destroy why r

/-! ## The end that waits for everything before it -/

/-- The caller has ended its writing, and no text waits: the stream takes on no more. -/
structure Through (r : Relay) : Prop where
  ending : r.stream.ending = true
  backlog : r.stream.backlog = []

/-- What being through depends on. -/
def Vital.tail (v : Vital) : Bool × List Parcel := (v.ending, v.backlog)

theorem Through.of_tail (h : Through r) (hsame : s.vital.tail = r.vital.tail) : Through s :=
  ⟨(Prod.mk.inj hsame).1.trans h.ending, (Prod.mk.inj hsame).2.trans h.backlog⟩

theorem tail_endInput (r : Relay) : (endInput r).1.vital.tail = r.vital.tail := by
  obtain ⟨ended, hended⟩ := exists_vital_endInput r
  rw [hended]
  rfl

theorem through_move (he : e.text? = none) (h : Move e r a) (hr : Through r) :
    Through (a r).1 := by
  cases h with
  | note hsame => exact hr.of_tail (congrArg Vital.tail hsame)
  | signal s _ => exact hr.of_tail (congrArg Vital.tail (vital_sendSignal s r))
  | destroy why hopen _ => exact hr.of_tail (congrArg Vital.tail (vital_destroy why hopen) :)
  | endInput _ => exact hr.of_tail (tail_endInput r)
  | endOutput _ _ => exact hr.of_tail (congrArg Vital.tail (vital_withOutputEnded r) :)
  | beginEnding _ => exact ⟨rfl, hr.backlog⟩
  | takeOn p hevent _ _ =>
      rw [he] at hevent
      exact nomatch hevent
  | handOver p later _ hbacklog =>
      rw [hr.backlog] at hbacklog
      exact nomatch hbacklog
  | giveUp _ => exact ⟨hr.ending, rfl⟩
  | fire _ =>
      obtain ⟨timers, now, hvital⟩ := vital_fireNext r
      exact hr.of_tail (congrArg Vital.tail hvital :)
  | _ => exact ⟨hr.ending, hr.backlog⟩

/-- No text is among the calls. -/
def Wordless (calls : List ChildCall) : Prop := ∀ text, .write text ∉ calls

theorem Wordless.append {calls more : List ChildCall} (h : Wordless calls) (hmore : Wordless more) :
    Wordless (calls ++ more) := by
  intro text htext
  rcases List.mem_append.mp htext with htext | htext
  · exact h text htext
  · exact hmore text htext

theorem through_moves {t : Relay} {outputs : List Output} (he : e.text? = none)
    (h : Moves e t outputs s) (ht : Through t) : Through s ∧ Wordless (Output.calls outputs) := by
  refine h.keeps [] (P := fun past s => Through s ∧ Wordless past) (fun h hs => ?_)
    ⟨ht, fun _ => List.not_mem_nil⟩
  refine ⟨through_move he h hs.1, hs.2.append fun text htext => ?_⟩
  exact (write_of_move h htext).2.2 hs.1.backlog

/-- When the stream is through, the caller's further texts are refused. -/
theorem through_act (e : RelayEvent) (hr : Through r) :
    Through (act e r).1 ∧ Wordless (Output.calls (act e r).2) := by
  cases htext : e.text? with
  | none => exact through_moves htext (moves_act e r) hr
  | some text =>
      rcases moves_text htext r with ⟨hmoves, -⟩ | ⟨-, hending, -⟩
      · exact through_moves rfl hmoves hr
      · exact absurd hr.ending (Bool.eq_false_iff.mp hending)

theorem through_run (hr : Through r) (events : List RelayEvent) :
    Wordless (Output.calls (r.run events).2) := by
  induction events generalizing r with
  | nil => exact fun _ => List.not_mem_nil
  | cons e events ih =>
      obtain ⟨hthrough, hfirst⟩ := through_act e hr
      rw [run, Output.calls_append, step, Output.calls_settle]
      exact hfirst.append (ih hthrough)

/-- An end of the input that is not a close's comes when everything is through. -/
theorem through_of_moves {t : Relay} {outputs : List Output} (he : e.text? = none)
    (hclose : e ≠ .close) (h : Moves e t outputs s) :
    ¬WritesAfter .endInput (Output.calls outputs)
      ∧ (.endInput ∈ Output.calls outputs → Through s) := by
  refine h.keeps [] (P := fun past s => ¬WritesAfter .endInput past
    ∧ (.endInput ∈ past → Through s)) (fun h hs => ?_)
    ⟨not_writesAfter_nil _, fun hno => absurd hno List.not_mem_nil⟩
  refine ⟨not_writesAfter_grow h hs.1 hs.2 fun hthrough text htext => ?_, fun hmem => ?_⟩
  · exact (write_of_move h htext).2.2 hthrough.backlog
  · rcases List.mem_append.mp hmem with hmem | hmem
    · exact through_move he h (hs.2 hmem)
    · obtain ⟨rfl, hcause, -⟩ := h.origin _ hmem
      rcases hcause with hevent | ⟨hending, hidle⟩
      · exact absurd hevent hclose
      · have hempty := (Bool.and_eq_true_iff.mp hidle).2
        exact Through.of_tail ⟨hending, List.isEmpty_iff.mp hempty⟩ (tail_endInput _)

theorem through_of_endInput (hclose : e ≠ .close) (r : Relay) :
    ¬WritesAfter .endInput (Output.calls (act e r).2)
      ∧ (.endInput ∈ Output.calls (act e r).2 → Through (act e r).1) := by
  cases htext : e.text? with
  | none => exact through_of_moves htext hclose (moves_act e r)
  | some text =>
      -- Where the text has been taken on, the rest of the rule is as on any other event.
      have hother : RelayEvent.taken ≠ .close := fun hno => nomatch hno
      rcases moves_text htext r with ⟨hmoves, -⟩ | ⟨-, -, p, t, -, hmoves, -⟩
      · exact through_of_moves rfl hother hmoves
      · exact through_of_moves rfl hother hmoves

/-! ## The end that does not wait -/

/-- An input that is ended on an event was not shut before. -/
theorem open_of_endInput (h : .endInput ∈ Output.calls (act e r).2) : r.vital.shut = false := by
  have hkept := act_keeps (e := e) (r := r) []
    (P := fun past s => (r.vital.shut = true → s.vital.shut = true)
      ∧ (.endInput ∈ past → r.vital.shut = false)) (fun {past s a} h hs => ?_)
    ⟨id, fun hno => absurd hno List.not_mem_nil⟩
  · exact hkept.2 h
  · refine ⟨fun hshut => (latch_move h).2 (hs.1 hshut), fun hmem => ?_⟩
    rcases List.mem_append.mp hmem with hmem | hmem
    · exact hs.2 hmem
    · obtain ⟨-, -, hdestroyed, hended⟩ := h.origin _ hmem
      refine Bool.eq_false_iff.mpr fun hshut => ?_
      have hnow : (s.child.inputEnded || s.child.inputDestroyed) = true := hs.1 hshut
      rw [hdestroyed, hended] at hnow
      exact nomatch hnow

theorem wordless_destroy (why : Option Refusal) (r : Relay) :
    Wordless (Output.calls (destroy why r).2) := by
  intro text htext
  cases hopen : r.stream.destroyed with
  | true =>
      rw [destroy_of_destroyed why hopen] at htext
      cases htext
  | false =>
      rw [calls_destroy why hopen] at htext
      split at htext
      · simp at htext
      · simp at htext

theorem wordless_awaitExit (r : Relay) : Wordless (Output.calls (awaitExit r).2) := by
  rw [awaitExit, Act.reading]
  cases r.exit with
  | some x =>
      show Wordless (Output.calls ((destroy none r).2 ++ [.notice (.closed x)]))
      rw [Output.calls_append]
      exact (wordless_destroy none r).append fun _ => List.not_mem_nil
  | none => exact fun _ => List.not_mem_nil

theorem child_markClosed (r : Relay) : (markClosed r).child = r.child := by
  obtain ⟨stage, hstage⟩ := exists_markClosed r
  rw [hstage]

/-- A close ends an input that is not shut, and passes nothing on. -/
theorem calls_close (r : Relay) : ∃ rest, Wordless rest ∧ Output.calls (act .close r).2
    = (if !r.child.inputDestroyed && !r.child.inputEnded then [.endInput] else []) ++ rest := by
  refine ⟨_, wordless_awaitExit (endInput (markClosed r)).1, ?_⟩
  show Output.calls ([] ++ ((endInput (markClosed r)).2
    ++ (awaitExit (endInput (markClosed r)).1).2)) = _
  rw [List.nil_append, Output.calls_append, calls_endInput, child_markClosed]

theorem wordless_close (r : Relay) : Wordless (Output.calls (act .close r).2) := by
  obtain ⟨rest, hrest, hcalls⟩ := calls_close r
  rw [hcalls]
  refine Wordless.append ?_ hrest
  split
  · exact fun text htext => nomatch List.mem_singleton.mp htext
  · exact fun _ => List.not_mem_nil

theorem endInput_mem_close (hopen : r.vital.shut = false) :
    .endInput ∈ Output.calls (act .close r).2 := by
  obtain ⟨rest, -, hcalls⟩ := calls_close r
  have hshut : (r.child.inputEnded || r.child.inputDestroyed) = false := hopen
  obtain ⟨hended, hdestroyed⟩ := Bool.or_eq_false_iff.mp hshut
  rw [hcalls, hended, hdestroyed]
  exact List.mem_cons_self

/-! ## Runs -/

theorem calls_run_split (r : Relay) (before : List RelayEvent) (e : RelayEvent)
    (after : List RelayEvent) : Output.calls (r.run (before ++ e :: after)).2
      = Output.calls (r.run before).2 ++ (Output.calls (act e (r.run before).1).2
        ++ Output.calls ((r.run (before ++ [e])).1.run after).2) := by
  have hlast : (r.run (before ++ [e])).1 = ((r.run before).1.step e).1 := (run_concat r before e).1
  rw [run_append, Output.calls_append, run, Output.calls_append, hlast, step, Output.calls_settle]

/-- The event on which a call is made. -/
theorem exists_event_of_call (h : c ∈ Output.calls (r.run events).2) :
    ∃ before e after, events = before ++ e :: after
      ∧ c ∈ Output.calls (act e (r.run before).1).2 := by
  induction events using List.reverseRecOn with
  | nil => exact nomatch h
  | append_singleton before e ih =>
      rw [(run_concat r before e).2] at h
      rcases List.mem_append.mp h with hearlier | hnow
      · obtain ⟨first, u, rest, rfl, hcall⟩ := ih hearlier
        exact ⟨first, u, rest ++ [e], by rw [List.append_assoc, List.cons_append], hcall⟩
      · exact ⟨before, e, [], rfl, hnow⟩

/-- A text that comes after the end of the input comes after a close that ended it. -/
theorem close_of_writesAfter (honce : EndedOnce (Output.calls (r.run events).2) (r.run events).1)
    (h : WritesAfter .endInput (Output.calls (r.run events).2)) :
    ∃ before after, events = before ++ .close :: after ∧ (r.run before).1.vital.shut = false
      ∧ ∃ text, .write text ∈ Output.calls ((r.run (before ++ [.close])).1.run after).2 := by
  have hmem : .endInput ∈ Output.calls (r.run events).2 := by
    obtain ⟨first, rest, text, hsplit, -⟩ := h
    rw [hsplit]
    exact List.mem_append_right _ List.mem_cons_self
  obtain ⟨before, e, after, rfl, hend⟩ := exists_event_of_call hmem
  -- The input is ended on this event only, so the text comes on it or later.
  have hcount := honce.once
  have hpos : 0 < (Output.calls (act e (r.run before).1).2).count .endInput :=
    List.count_pos_iff.mpr hend
  rw [calls_run_split] at h hcount
  rw [List.count_append, List.count_append] at hcount
  have hbefore : .endInput ∉ Output.calls (r.run before).2 :=
    List.count_eq_zero.mp (by omega)
  have hafter : .endInput ∉ Output.calls ((r.run (before ++ [e])).1.run after).2 :=
    List.count_eq_zero.mp (by omega)
  have hearly : ∀ calls : List ChildCall, .endInput ∉ calls → ¬WritesAfter .endInput calls := by
    rintro calls hno ⟨first, rest, text, rfl, -⟩
    exact hno (List.mem_append_right _ List.mem_cons_self)
  have hlate : WritesAfter .endInput (Output.calls (act e (r.run before).1).2)
      ∨ ∃ text, .write text ∈ Output.calls ((r.run (before ++ [e])).1.run after).2 := by
    rcases writesAfter_append.mp h with hno | hrest | ⟨hno, -⟩
    · exact absurd hno (hearly _ hbefore)
    · rcases writesAfter_append.mp hrest with hwithin | hno | ⟨-, htext⟩
      · exact Or.inl hwithin
      · exact absurd hno (hearly _ hafter)
      · exact Or.inr htext
    · exact absurd hno hbefore
  by_cases hclose : e = .close
  · subst hclose
    refine ⟨before, after, rfl, open_of_endInput hend, ?_⟩
    rcases hlate with hwithin | htext
    · exact absurd hwithin (not_writesAfter_of_no_write (wordless_close _))
    · exact htext
  · -- The caller has ended its writing and everything was through: nothing comes after.
    obtain ⟨hnone, hthrough⟩ := through_of_endInput hclose (r.run before).1
    rcases hlate with hwithin | ⟨text, htext⟩
    · exact absurd hwithin hnone
    · have hstate : Through (r.run (before ++ [e])).1 := by
        rw [(run_concat r before e).1]
        exact hthrough hend
      exact absurd htext (through_run hstate after text)

/-- Only what waits at a close or is written after it can be passed on after it. -/
theorem wordless_of_nothing_left {after : List RelayEvent} (hbacklog : r.stream.backlog = [])
    (hwrote : RelayEvent.wrote after = []) : Wordless (Output.calls (r.run after).2) := by
  intro text htext
  have hinOrder := (ledger_run r after).inOrder
  rw [hbacklog, hwrote] at hinOrder
  have hmem : text ∈ texts (Output.calls (r.run after).2) :=
    List.mem_filterMap.mpr ⟨.write text, htext, rfl⟩
  rw [List.prefix_nil.mp hinOrder] at hmem
  exact nomatch hmem

/-- **What comes last on the way to a process.** In every run the input is ended at most
    once, and no text is passed on after it has been let go of.  A text is passed on after
    the end of the input exactly if a close ended it, while it was still open, and a text is
    passed on later; that cannot be if nothing waits at a close and the caller writes
    nothing after it. -/
theorem input_order (command : String) (patience now : Rat) (pid : Option Int)
    (reading : Bool) (events : List RelayEvent) :
    let start := fresh command patience now pid reading
    let calls := Output.calls (start.run events).2
    calls.count .endInput ≤ 1 ∧ ¬WritesAfter .destroyInput calls
      ∧ (WritesAfter .endInput calls ↔ ∃ before after, events = before ++ .close :: after
        ∧ (start.run before).1.vital.shut = false
        ∧ ∃ text, .write text ∈ Output.calls ((start.run (before ++ [.close])).1.run after).2)
      ∧ ((∀ before after, events = before ++ .close :: after →
          (start.run (before ++ [.close])).1.stream.backlog = [] ∧ RelayEvent.wrote after = []) →
        ¬WritesAfter .endInput calls) := by
  intro start calls
  have honce : EndedOnce calls (start.run events).1 :=
    run_keeps_moves [] (Q := fun _ => True) (fun _ h hs => endedOnce_move h hs)
      ⟨Nat.zero_le 1, fun hno => nomatch hno⟩ fun _ _ => trivial
  have hletGo : LetGo calls (start.run events).1 :=
    run_keeps_moves [] (Q := fun _ => True) (fun _ h hs => letGo_move h hs)
      ⟨not_writesAfter_nil _, fun hno => nomatch hno⟩ fun _ _ => trivial
  refine ⟨honce.once, hletGo.last, ⟨close_of_writesAfter honce, ?_⟩, fun hclean hwrites => ?_⟩
  · rintro ⟨before, after, rfl, hopen, hlater⟩
    show WritesAfter .endInput (Output.calls (start.run (before ++ .close :: after)).2)
    rw [calls_run_split, writesAfter_append, writesAfter_append]
    exact Or.inr (Or.inl (Or.inr (Or.inr ⟨endInput_mem_close hopen, hlater⟩)))
  · obtain ⟨before, after, hsplit, -, text, htext⟩ := close_of_writesAfter honce hwrites
    obtain ⟨hbacklog, hwrote⟩ := hclean before after hsplit
    exact wordless_of_nothing_left hbacklog hwrote text htext

/-- A caller who only writes and ends its writing: the end comes last. -/
theorem input_order_without_close :
    ¬WritesAfter .endInput (Output.calls ((fresh "nc" defaultPatience 0 (some 1) true).run
      [.spawned, .stall true, .write "x", .write "y", .endWrites none, .taken, .taken]).2) := by
  refine (input_order "nc" defaultPatience 0 (some 1) true
    [.spawned, .stall true, .write "x", .write "y", .endWrites none, .taken, .taken]).2.2.2 ?_
  intro before after hsplit
  have hmem : .close ∈ before ++ .close :: after := List.mem_append_right _ List.mem_cons_self
  rw [← hsplit] at hmem
  simp at hmem

/-- A close turns a text that waits, and one that is written later, into a text after the end
    of the input. -/
theorem written_after_close :
    WritesAfter .endInput (Output.calls ((fresh "nc" defaultPatience 0 (some 1) true).run
        [.spawned, .close, .write "x"]).2)
      ∧ WritesAfter .endInput (Output.calls ((fresh "nc" defaultPatience 0 (some 1) true).run
        [.spawned, .stall true, .write "x", .write "y", .close, .taken]).2) :=
  ⟨⟨[], [.write "x"], "x", rfl, List.mem_cons_self⟩,
    ⟨[.write "x"], [.write "y"], "y", rfl, List.mem_cons_self⟩⟩

end Relay

end SshDial

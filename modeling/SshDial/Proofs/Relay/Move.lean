import Mathlib.Data.List.Induction
import SshDial.Proofs.Relay.Act

/-! # Moves — what an event can make a relay do

    The rules of a relay share a small number of moves: a signal is sent, a text is handed
    to the process, the input is ended, the stream is destroyed, a timer is armed, and so
    on.  `Relay.Move e r a` says that the act `a` is a move that the event `e` can bring
    about in the state `r`; its constructors carry all that is known of `r` there.

    `Relay.moves_act` takes every rule apart into moves, once and for all.  What every move
    keeps, be it about the state or about all that has been done to the process so far, an
    event keeps (`Relay.act_keeps`) and a run keeps (`Relay.run_keeps_moves`); nobody has to
    look at the rules again. -/

namespace SshDial

/-- The exit that an answer to a wait or to a close reports. -/
def Notice.answer? : Notice → Option Exit
  | .waited x => some x
  | .closed x => some x
  | _ => none

namespace Output

def answer? : Output → Option Exit
  | .notice n => n.answer?
  | _ => none

/-- The exits that waits and closes are answered with. -/
def answers (outputs : List Output) : List Exit := outputs.filterMap answer?

theorem answers_append (outputs more : List Output) :
    answers (outputs ++ more) = answers outputs ++ answers more :=
  List.filterMap_append

theorem calls_append (outputs more : List Output) :
    calls (outputs ++ more) = calls outputs ++ calls more :=
  List.filterMap_append

/-- Putting the news of destruction last changes nothing for the process. -/
theorem calls_settle (outputs : List Output) : calls (settle outputs) = calls outputs := by
  have hlate : calls (outputs.filter (·.isLate)) = [] := by
    refine List.filterMap_eq_nil_iff.mpr fun o ho => ?_
    have hlate := (List.mem_filter.mp ho).2
    cases o with
    | call c => exact nomatch hlate
    | notice n => rfl
    | log entry => rfl
  rw [settle, calls_append, hlate, List.append_nil, calls, List.filterMap_filter]
  congr 1
  funext o
  cases o with
  | call c => rfl
  | notice n => cases n.isLate <;> simp
  | log entry => rfl

end Output

namespace RelayEvent

/-- The text that the caller writes, if it writes one. -/
def text? : RelayEvent → Option String
  | .write text => some text
  | .endWrites text => text
  | _ => none

/-- Does somebody other than the rules of the stream want the stream to be gone? -/
def breaksOff : RelayEvent → Bool
  | .destroy _ => true
  | .childError _ => true
  | .outputError _ => true
  | .inputError _ => true
  | _ => false

end RelayEvent

namespace Relay

open Act

/-- What the moves of a relay are about. -/
structure Vital where
  pid : Option Int
  marked : Bool
  writeError : Option Value
  inputEnded : Bool
  inputDestroyed : Bool
  outputEnded : Bool
  outputDestroyed : Bool
  ending : Bool
  finished : Bool
  underway : Option Parcel
  backlog : List Parcel
  destroyed : Bool
  fault : Option Refusal
  exit : Option Exit
  timers : List Timer
  patience : Rat
  now : Rat

def vital (r : Relay) : Vital where
  pid := r.child.pid
  marked := r.child.marked
  writeError := r.child.writeError
  inputEnded := r.child.inputEnded
  inputDestroyed := r.child.inputDestroyed
  outputEnded := r.child.outputEnded
  outputDestroyed := r.child.outputDestroyed
  ending := r.stream.ending
  finished := r.stream.finished
  underway := r.stream.underway
  backlog := r.stream.backlog
  destroyed := r.stream.destroyed
  fault := r.stream.fault
  exit := r.exit
  timers := r.timers
  patience := r.patience
  now := r.now

/-- Why an event can destroy a stream with an error or without one. -/
inductive Cause (e : RelayEvent) (r : Relay) : Option Refusal → Prop where
  /-- Both directions are through. -/
  | through (h : r.stream.finished = true) : Cause e r none
  /-- It has been asked for, or a pipe or the process has failed. -/
  | asked (h : e.breaksOff = true) (why : Option Refusal) : Cause e r why
  /-- The process has ended. -/
  | exited (h : r.exit.isSome = true) (why : Option Refusal) : Cause e r why
  /-- The caller has written after the end of its writing. -/
  | afterEnd (h : r.stream.ending = true) (why : Refusal) : Cause e r (some why)
  /-- A write has failed. -/
  | writeFailed (h : r.child.writeError.isSome = true) (why : Refusal) : Cause e r (some why)

/-- The relay with the report of the exit. -/
def withExit (x : Exit) (r : Relay) : Relay :=
  { r with exit := some x, stage := .reaped, tracked := false }

/-- The relay with its output ended. -/
def withOutputEnded (r : Relay) : Relay :=
  markClosed { r with child := { r.child with outputEnded := true } }

/-- The moves that an event can bring about in a state. -/
inductive Move (e : RelayEvent) (r : Relay) : Act → Prop where
  /-- Something is noted that the moves are not about. -/
  | note {f : Relay → Relay} (h : (f r).vital = r.vital) : Move e r (modify f)
  /-- Somebody is told something, or the process is asked to pause.  A wait or a close is
      answered with the exit that has been reported. -/
  | tell {outputs : List Output} (h : ∀ c ∈ Output.calls outputs, c = .pauseOutput)
      (hanswer : ∀ x ∈ Output.answers outputs, r.exit = some x) : Move e r (emit outputs)
  /-- The caller, or the end of the program, sends a signal. -/
  | signal (s : Signal) (h : e = .kill s ∨ e = .programEnd ∧ s = .kill) :
      Move e r (sendSignal s)
  | destroy (why : Option Refusal) (hopen : r.stream.destroyed = false)
      (hcause : Cause e r why) : Move e r (destroy why)
  /-- A close ends the input, or the end of the caller's writing does. -/
  | endInput (h : e = .close ∨ r.stream.ending = true ∧ r.stream.isIdle = true) :
      Move e r endInput
  /-- A close waits for the process to end. -/
  | await (h : e = .close) (hexit : r.exit = none) : Move e r (modify (arm .closeTerm))
  | endOutput (h : e = .outputEnd) (hopen : r.outputOpen = true) :
      Move e r (modify withOutputEnded)
  /-- The caller ends its writing. -/
  | beginEnding (h : ∃ text, e = .endWrites text) :
      Move e r (modify fun r => { r with stream := { r.stream with ending := true } })
  /-- The end of the caller's writing has been passed on. -/
  | finished (h : r.stream.ending = true) :
      Move e r (modify fun r => { r with stream := { r.stream with finished := true } })
  /-- The caller's text is taken on. -/
  | takeOn (p : Parcel) (h : e.text? = some p.text) (hopen : r.stream.destroyed = false)
      (hending : r.stream.ending = true → ∃ text, e = .endWrites text) :
      Move e r
        (modify fun r => { r with stream := { r.stream with backlog := r.stream.backlog ++ [p] } })
  /-- The first of the texts that wait is handed over. -/
  | handOver (p : Parcel) (later : List Parcel) (hopen : r.stream.destroyed = false)
      (hbacklog : r.stream.backlog = p :: later) : Move e r (handOver p later)
  /-- The write under way is over. -/
  | release (h : e = .taken) :
      Move e r (modify fun r => { r with stream := { r.stream with underway := none } })
  /-- The texts that wait are given up, after the stream. -/
  | giveUp (h : r.stream.destroyed = true) :
      Move e r (modify fun r => { r with stream := { r.stream with backlog := [] } })
  | failWrites (error : Option Value) (h : e = .failWrites error) :
      Move e r (modify fun r => { r with child := { r.child with writeError := error } })
  | mark (marked : Bool) (h : e = .mark marked) :
      Move e r (modify fun r => { r with child := { r.child with marked } })
  | exit (x : Exit) (h : e = .exit x) (hexit : r.exit = none) : Move e r (modify (withExit x))
  /-- Nobody waits for the process any longer. -/
  | disarm (h : r.exit.isSome = true) :
      Move e r (modify fun r => { r with timers := [], waiting := 0, closing := 0 })
  | fire (h : e = .timer) : Move e r fireNext
  | pass (ms : Rat) (h : e = .pass ms) : Move e r (modify (passTime ms))

/-- One move after the other, and what they put out. -/
inductive Moves (e : RelayEvent) : Relay → List Output → Relay → Prop where
  | done (r : Relay) : Moves e r [] r
  | move {r : Relay} {a : Act} {outputs : List Output} {s : Relay} (first : Move e r a)
      (rest : Moves e (a r).1 outputs s) : Moves e r ((a r).2 ++ outputs) s

theorem Moves.trans {e : RelayEvent} {r s t : Relay} {outputs more : List Output}
    (h : Moves e r outputs s) (hnext : Moves e s more t) : Moves e r (outputs ++ more) t := by
  induction h with
  | done r => exact hnext
  | move first rest ih =>
      rw [List.append_assoc]
      exact .move first (ih hnext)

/-- What every move keeps, moves keep one after the other.  `past` is all that has been done
    to the process before. -/
theorem Moves.keeps {e : RelayEvent} {r s : Relay} {outputs : List Output}
    (h : Moves e r outputs s) (past : List ChildCall) {P : List ChildCall → Relay → Prop}
    (hmove : ∀ {past r a}, Move e r a → P past r → P (past ++ Output.calls (a r).2) (a r).1)
    (hr : P past r) : P (past ++ Output.calls outputs) s := by
  induction h generalizing past with
  | done r =>
      show P (past ++ []) r
      rw [List.append_nil]
      exact hr
  | move first rest ih =>
      rw [Output.calls_append, ← List.append_assoc]
      exact ih _ (hmove first hr)

end Relay

namespace Act

/-- In the state `r` the act is made of moves. -/
def MovesFrom (a : Act) (e : RelayEvent) (r : Relay) : Prop := Relay.Moves e r (a r).2 (a r).1

variable {a b : Act} {e : RelayEvent} {r : Relay}

theorem movesFrom_skip : skip.MovesFrom e r := .done r

theorem movesFrom_move (h : Relay.Move e r a) : a.MovesFrom e r := by
  have hmoves := Relay.Moves.move h (.done _)
  rw [List.append_nil] at hmoves
  exact hmoves

theorem MovesFrom.andThen (ha : a.MovesFrom e r) (hb : b.MovesFrom e (a r).1) :
    (a.andThen b).MovesFrom e r :=
  Relay.Moves.trans ha hb

theorem movesFrom_reading {f : Relay → Act} (h : (f r).MovesFrom e r) :
    (reading f).MovesFrom e r := h

theorem movesFrom_when {c : Relay → Bool} (h : c r = true → a.MovesFrom e r) :
    (when c a).MovesFrom e r := by
  rw [MovesFrom, when]
  by_cases hc : c r = true
  · rw [if_pos hc]
    exact h hc
  · rw [if_neg hc]
    exact .done r

theorem movesFrom_note {f : Relay → Relay} (h : (f r).vital = r.vital) :
    (modify f).MovesFrom e r := movesFrom_move (.note h)

/-- What calls the process to do nothing is only told. -/
theorem movesFrom_answer {outputs : List Output} (h : Output.calls outputs = [])
    (hanswer : ∀ x ∈ Output.answers outputs, r.exit = some x) :
    (emit outputs).MovesFrom e r := by
  refine movesFrom_move (.tell (fun c hc => ?_) hanswer)
  rw [h] at hc
  exact nomatch hc

/-- What answers nobody is told at any time. -/
theorem movesFrom_tell {outputs : List Output} (h : Output.calls outputs = [])
    (hanswer : Output.answers outputs = []) : (emit outputs).MovesFrom e r := by
  refine movesFrom_answer h fun x hx => ?_
  rw [hanswer] at hx
  exact nomatch hx

end Act

namespace Relay

open Act

variable {e : RelayEvent} {r : Relay}

theorem vital_markClosed (r : Relay) : (markClosed r).vital = r.vital := by
  obtain ⟨stage, hstage⟩ := exists_markClosed r
  rw [hstage]
  rfl

theorem vital_withOutputEnded (r : Relay) :
    (withOutputEnded r).vital = { r.vital with outputEnded := true } :=
  vital_markClosed _

/-! ## The rules, taken apart -/

/-- A stream is given up once. -/
theorem destroy_of_destroyed (why : Option Refusal) (h : r.stream.destroyed = true) :
    destroy why r = (r, []) := by
  rw [destroy, Act.when, h]
  rfl

theorem movesFrom_destroy {why : Option Refusal} (h : Cause e r why) :
    (destroy why).MovesFrom e r := by
  cases hopen : r.stream.destroyed with
  | true =>
      rw [MovesFrom, destroy_of_destroyed why hopen]
      exact .done r
  | false => exact movesFrom_move (.destroy why hopen h)

theorem movesFrom_destroyIfThrough : destroyIfThrough.MovesFrom e r :=
  movesFrom_when fun h => movesFrom_destroy (.through (Bool.and_eq_true_iff.mp h).2)

theorem movesFrom_announceEnd : announceEnd.MovesFrom e r :=
  movesFrom_when fun _ => (movesFrom_note rfl).andThen <|
    (movesFrom_tell rfl rfl).andThen movesFrom_destroyIfThrough

theorem movesFrom_showEnd : showEnd.MovesFrom e r := movesFrom_when fun _ => movesFrom_announceEnd

theorem calls_map_data (chunks : List String) :
    Output.calls (chunks.map fun chunk => .notice (.data chunk)) = [] := by
  rw [Output.calls, List.filterMap_map]
  exact List.filterMap_eq_nil_iff.mpr fun _ _ => rfl

theorem answers_map_data (chunks : List String) :
    Output.answers (chunks.map fun chunk => .notice (.data chunk)) = [] := by
  rw [Output.answers, List.filterMap_map]
  exact List.filterMap_eq_nil_iff.mpr fun _ _ => rfl

theorem movesFrom_deliver : deliver.MovesFrom e r := by
  have hsplit : deliver r = (Act.modify fun r => { r with stream := { r.stream with queue := [] } }).andThen
      (emit (r.stream.queue.map fun chunk => .notice (.data chunk))) r := rfl
  rw [MovesFrom, hsplit]
  exact (movesFrom_note rfl).andThen (movesFrom_tell (calls_map_data _) (answers_map_data _))

theorem movesFrom_beginReading : beginReading.MovesFrom e r :=
  movesFrom_when fun _ => (movesFrom_note rfl).andThen <|
    movesFrom_deliver.andThen movesFrom_showEnd

theorem movesFrom_readNext : readNext.MovesFrom e r :=
  movesFrom_when fun _ =>
    (movesFrom_reading (movesFrom_tell (calls_map_data _) (answers_map_data _))).andThen <|
    (movesFrom_note rfl).andThen <| movesFrom_when fun _ => movesFrom_announceEnd

theorem movesFrom_accept (chunk : String) : (accept chunk).MovesFrom e r := by
  refine movesFrom_reading ?_
  show (if r.stream.reading then _ else _ : Act).MovesFrom e r
  split
  · refine (movesFrom_note rfl).andThen ?_
    split
    · exact movesFrom_tell rfl rfl
    · exact movesFrom_tell rfl rfl
  · refine (movesFrom_note rfl).andThen (movesFrom_when fun _ => movesFrom_move (.tell ?_ ?_))
    · exact List.forall_mem_singleton.mpr rfl
    · exact List.forall_mem_nil _

theorem movesFrom_endOutput (h : e = .outputEnd) (hopen : r.outputOpen = true) :
    endOutput.MovesFrom e r :=
  (movesFrom_move (.endOutput h hopen)).andThen movesFrom_showEnd

theorem movesFrom_finish (hending : r.stream.ending = true) (hidle : r.stream.isIdle = true) :
    finish.MovesFrom e r := by
  refine movesFrom_when fun _ => (movesFrom_move (.endInput (Or.inr ⟨hending, hidle⟩))).andThen ?_
  refine (movesFrom_move (.finished ?_)).andThen movesFrom_destroyIfThrough
  rw [endInput, Act.when]
  split
  · exact hending
  · exact hending

theorem movesFrom_finishIfDue : finishIfDue.MovesFrom e r :=
  movesFrom_when fun h => movesFrom_finish (Bool.and_eq_true_iff.mp h).1 (Bool.and_eq_true_iff.mp h).2

theorem movesFrom_report (p : Parcel) {n : Notice} (hn : n.answer? = none) :
    (report p n).MovesFrom e r := by
  rw [report]
  split
  · refine movesFrom_tell rfl ?_
    exact List.filterMap_eq_nil_iff.mpr (List.forall_mem_singleton.mpr hn)
  · exact movesFrom_tell rfl rfl

theorem movesFrom_abandon (h : r.stream.destroyed = true) (why : Refusal) :
    (abandon why).MovesFrom e r := by
  refine movesFrom_reading ((movesFrom_move (.giveUp h)).andThen (movesFrom_tell ?_ ?_))
  · rw [Output.calls, List.filterMap_map]
    exact List.filterMap_eq_nil_iff.mpr fun _ _ => rfl
  · rw [Output.answers, List.filterMap_map]
    exact List.filterMap_eq_nil_iff.mpr fun _ _ => rfl

/-! ## What the larger moves come to -/

namespace Vital

/-- Can a signal still reach the process? -/
def reachable (v : Vital) : Bool := v.pid.isSome && v.exit.isNone && !v.marked

/-- Signals reach only a process that has not ended. -/
theorem exit_of_reachable {v : Vital} (h : v.reachable = true) : v.exit = none := by
  rw [reachable, Bool.and_eq_true, Bool.and_eq_true] at h
  exact Option.isNone_iff_eq_none.mp h.1.2

theorem unmarked_of_reachable {v : Vital} (h : v.reachable = true) : v.marked = false := by
  rw [reachable, Bool.and_eq_true, Bool.not_eq_true'] at h
  exact h.2

/-- With one timer more. -/
def armed (v : Vital) (purpose : Purpose) : Vital :=
  { v with timers := v.timers ++ [⟨Number.rounded (v.now + v.patience), purpose⟩] }

/-- The timers, with one for a process that has not ended when its stream is given up. -/
def dropTimers (v : Vital) (s : Signal) : List Timer :=
  if v.exit.isNone then (v.armed (.drop s)).timers else v.timers

theorem mem_armed {v : Vital} {purpose : Purpose} {t : Timer}
    (h : t ∈ (v.armed purpose).timers) :
    t ∈ v.timers ∨ t = ⟨Number.rounded (v.now + v.patience), purpose⟩ :=
  (List.mem_append.mp h).imp_right List.mem_singleton.mp

theorem mem_dropTimers {v : Vital} {s : Signal} {t : Timer} (h : t ∈ v.dropTimers s) :
    t ∈ v.timers ∨ t = ⟨Number.rounded (v.now + v.patience), .drop s⟩ := by
  rw [dropTimers] at h
  split at h
  · exact mem_armed h
  · exact Or.inl h

/-- With the stream given up and the pipes let go of. -/
def dropped (v : Vital) (why : Option Refusal) (s : Signal) : Vital :=
  { v with
    inputDestroyed := true, outputDestroyed := true, destroyed := true, fault := why
    timers := v.dropTimers s }

end Vital

theorem vital_sendSignal (s : Signal) (r : Relay) : (sendSignal s r).1.vital = r.vital := by
  rw [sendSignal, Act.when]
  split
  · rfl
  · rfl

theorem calls_sendSignal (s : Signal) (r : Relay) :
    Output.calls (sendSignal s r).2 = if r.canSignal then [.signal s] else [] := by
  rw [sendSignal, Act.when]
  split
  · rfl
  · rfl

theorem vital_reapLater (s : Signal) (r : Relay) :
    (reapLater s r).1.vital = if r.exit.isNone then r.vital.armed (.drop s) else r.vital := by
  rw [reapLater, Act.when]
  split
  · rfl
  · rfl

theorem calls_reapLater (s : Signal) (r : Relay) : Output.calls (reapLater s r).2 = [] := by
  rw [reapLater, Act.when]
  split
  · rfl
  · rfl

theorem vital_markDestroyed (why : Option Refusal) (r : Relay) :
    (markDestroyed why r).vital = { r.vital with destroyed := true, fault := why } := by
  obtain ⟨stage, hstage⟩ := exists_markClosed r
  rw [markDestroyed, hstage]
  rfl

/-- The first two steps of giving a stream up: it is marked, and the process is asked to stop
    unless it has come to an orderly end. -/
def breakOff (why : Option Refusal) (r : Relay) : Relay × List Output :=
  (if isOrderly why r then skip else sendSignal .term) (markDestroyed why r)

theorem breakOff_spec (why : Option Refusal) (r : Relay) :
    (breakOff why r).1.vital = { r.vital with destroyed := true, fault := why }
      ∧ Output.calls (breakOff why r).2
        = if isOrderly why r || !r.canSignal then [] else [.signal .term] := by
  have hmark := vital_markDestroyed why r
  rw [breakOff]
  cases horderly : isOrderly why r with
  | true => exact ⟨hmark, rfl⟩
  | false =>
      have hcan : (markDestroyed why r).canSignal = r.canSignal :=
        congrArg Vital.reachable hmark
      refine ⟨(vital_sendSignal _ _).trans hmark, (calls_sendSignal _ _).trans ?_⟩
      rw [hcan]
      cases r.canSignal <;> rfl

/-- The signal that a process gets when it is still there after the stream's end. -/
def lastSignal (why : Option Refusal) (r : Relay) : Signal :=
  if isOrderly why r then .term else .kill

theorem destroy_of_open (why : Option Refusal) (hopen : r.stream.destroyed = false) :
    (destroy why r).1 = (reapLater (lastSignal why r) (dropPipes (breakOff why r).1).1).1
      ∧ Output.calls (destroy why r).2
        = Output.calls (breakOff why r).2 ++ [.destroyInput, .destroyOutput] := by
  have hlast : Output.calls ((why.map fun w => .notice (.streamError w)).toList
      ++ [.notice .streamClosed]) = [] := by
    cases why with
    | none => rfl
    | some w => rfl
  rw [destroy, Act.when, hopen]
  refine ⟨rfl, ?_⟩
  show Output.calls ((breakOff why r).2 ++ ((dropPipes (breakOff why r).1).2
    ++ ((reapLater _ (dropPipes (breakOff why r).1).1).2 ++ (_ ++ [.notice .streamClosed])))) = _
  rw [Output.calls_append, Output.calls_append, Output.calls_append, calls_reapLater, hlast]
  rfl

/-- A caller whose stream is given up because of an error is told so. -/
theorem streamError_mem_destroy (why : Refusal) (hopen : r.stream.destroyed = false) :
    .notice (.streamError why) ∈ (destroy (some why) r).2 := by
  rw [destroy, Act.when, hopen]
  simp [reading, Act.andThen, emit]

/-- What is left of a relay whose stream is given up. -/
theorem vital_destroy (why : Option Refusal) (hopen : r.stream.destroyed = false) :
    (destroy why r).1.vital = r.vital.dropped why (lastSignal why r) := by
  have hpipes : (dropPipes (breakOff why r).1).1.vital = { r.vital with
      inputDestroyed := true, outputDestroyed := true, destroyed := true, fault := why } :=
    congrArg (fun v : Vital => { v with inputDestroyed := true, outputDestroyed := true })
      (breakOff_spec why r).1
  have hexit : (dropPipes (breakOff why r).1).1.exit = r.exit := (congrArg Vital.exit hpipes :)
  have hsame : r.vital.exit = r.exit := rfl
  rw [(destroy_of_open why hopen).1, vital_reapLater, hexit, hpipes, Vital.dropped,
    Vital.dropTimers, hsame]
  cases r.exit.isNone with
  | true => rfl
  | false => rfl

/-- What giving the stream up does to the process. -/
theorem calls_destroy (why : Option Refusal) (hopen : r.stream.destroyed = false) :
    Output.calls (destroy why r).2
      = (if isOrderly why r || !r.canSignal then [] else [.signal .term])
        ++ [.destroyInput, .destroyOutput] := by
  rw [(destroy_of_open why hopen).2, (breakOff_spec why r).2]

/-- The relay when the clock has come to an armed timer. -/
def withFired (t : Timer) (r : Relay) : Relay :=
  { r with now := later r.now t.due, timers := r.timers.erase t }

theorem fireNext_of_none (h : nextTimer r.timers = none) : fireNext r = (r, []) := by
  rw [fireNext, reading, h]
  rfl

theorem fireNext_of_some {t : Timer} (h : nextTimer r.timers = some t) :
    fireNext r = fire t.purpose (withFired t r) := by
  rw [fireNext, reading, h]
  rfl

theorem mem_of_nextTimer {timers : List Timer} {t : Timer} (h : nextTimer timers = some t) :
    t ∈ timers := by
  have hall : ∀ best ∈ nextTimer timers, best ∈ timers := by
    -- The fold only ever holds timers that it has been given.
    rw [nextTimer]
    refine List.foldlRecOn (motive := fun best => ∀ b ∈ best, b ∈ timers) timers _ ?_ ?_
    · intro b hb
      exact nomatch hb
    · intro best hbest u hu v hv
      cases best with
      | none => exact Option.some.inj hv ▸ hu
      | some b =>
          by_cases hearlier : u.due < b.due
          · simp only [hearlier, if_true] at hv
            exact Option.some.inj hv ▸ hu
          · simp only [hearlier, if_false] at hv
            exact hbest v hv
  exact hall t h

end Relay

/-- The signal that a timer sends when it is due. -/
def Purpose.signal : Purpose → Signal
  | .closeTerm => .term
  | .closeKill => .kill
  | .drop s => s

namespace Relay

open Act

variable {e : RelayEvent} {r : Relay}

theorem calls_fire (purpose : Purpose) (r : Relay) :
    Output.calls (fire purpose r).2 = if r.canSignal then [.signal purpose.signal] else [] := by
  cases purpose with
  | closeTerm =>
      show Output.calls ([.log _] ++ ((sendSignal .term r).2 ++ [])) = _
      rw [Output.calls_append, Output.calls_append, calls_sendSignal]
      exact List.append_nil _
  | closeKill =>
      show Output.calls ([.log _] ++ ((sendSignal .kill r).2 ++ [])) = _
      rw [Output.calls_append, Output.calls_append, calls_sendSignal]
      exact List.append_nil _
  | drop s => exact calls_sendSignal s r

/-- A close that has asked the process to stop arms a timer for its last step. -/
theorem vital_fire (purpose : Purpose) (r : Relay) : (fire purpose r).1.vital
    = if purpose = .closeTerm then r.vital.armed .closeKill else r.vital := by
  cases purpose with
  | closeTerm => exact congrArg (Vital.armed · .closeKill) (vital_sendSignal .term r)
  | closeKill => exact vital_sendSignal .kill r
  | drop s => exact vital_sendSignal s r

/-- A due timer changes the clock and the timers, and nothing else. -/
theorem vital_fireNext (r : Relay) :
    ∃ timers now, (fireNext r).1.vital = { r.vital with timers, now } := by
  cases hnext : nextTimer r.timers with
  | none =>
      rw [fireNext_of_none hnext]
      exact ⟨r.timers, r.now, rfl⟩
  | some t =>
      rw [fireNext_of_some hnext, vital_fire]
      split
      · exact ⟨((withFired t r).vital.armed .closeKill).timers, later r.now t.due, rfl⟩
      · exact ⟨(withFired t r).timers, later r.now t.due, rfl⟩

/-- A due timer sends at most one signal, and does nothing else to the process. -/
theorem calls_fireNext (r : Relay) :
    Output.calls (fireNext r).2 = [] ∨ ∃ s, Output.calls (fireNext r).2 = [.signal s] := by
  cases hnext : nextTimer r.timers with
  | none =>
      rw [fireNext_of_none hnext]
      exact Or.inl rfl
  | some t =>
      rw [fireNext_of_some hnext, calls_fire]
      split
      · exact Or.inr ⟨t.purpose.signal, rfl⟩
      · exact Or.inl rfl

/-- The input is ended once, and not after it has been destroyed. -/
theorem vital_endInput (r : Relay) : (endInput r).1.vital
    = if !r.child.inputDestroyed && !r.child.inputEnded then { r.vital with inputEnded := true }
      else r.vital := by
  rw [endInput, Act.when]
  split
  · rfl
  · rfl

theorem exists_vital_endInput (r : Relay) :
    ∃ ended, (endInput r).1.vital = { r.vital with inputEnded := ended } := by
  rw [vital_endInput]
  split
  · exact ⟨true, rfl⟩
  · exact ⟨r.vital.inputEnded, rfl⟩

theorem calls_endInput (r : Relay) : Output.calls (endInput r).2
    = if !r.child.inputDestroyed && !r.child.inputEnded then [.endInput] else [] := by
  rw [endInput, Act.when]
  split
  · rfl
  · rfl

/-- Where a call comes from: which move makes it, and in which states. -/
def Origin (e : RelayEvent) (r : Relay) (a : Act) : ChildCall → Prop
  | .write text => ∃ p later, a = handOver p later ∧ p.text = text
      ∧ r.stream.destroyed = false ∧ r.stream.backlog = p :: later
  | .endInput => a = endInput ∧ (e = .close ∨ r.stream.ending = true ∧ r.stream.isIdle = true)
      ∧ r.child.inputDestroyed = false ∧ r.child.inputEnded = false
  | .destroyInput => ∃ why, a = destroy why
  | .destroyOutput => ∃ why, a = destroy why
  | .pauseOutput => True
  | .signal s => (e = .kill s ∨ e = .programEnd) ∨ s = .term ∨ e = .timer

/-- **Every call of a move has its origin.** -/
theorem Move.origin {a : Act} (h : Move e r a) : ∀ c ∈ Output.calls (a r).2, Origin e r a c := by
  cases h with
  | tell hcalls =>
      intro c hc
      rw [hcalls c hc]
      exact trivial
  | signal s hevent =>
      rw [calls_sendSignal]
      split
      · exact List.forall_mem_singleton.mpr (Or.inl (hevent.imp_right (·.1)))
      · exact List.forall_mem_nil _
  | destroy why hopen _ =>
      rw [calls_destroy why hopen]
      have hpipes : ∀ c ∈ [ChildCall.destroyInput, .destroyOutput],
          Origin e r (Relay.destroy why) c :=
        List.forall_mem_cons.mpr ⟨⟨why, rfl⟩, List.forall_mem_singleton.mpr ⟨why, rfl⟩⟩
      refine List.forall_mem_append.mpr ⟨?_, hpipes⟩
      split
      · exact List.forall_mem_nil _
      · exact List.forall_mem_singleton.mpr (Or.inr (Or.inl rfl))
  | endInput hcause =>
      rw [calls_endInput]
      split
      · rename_i hopen
        rw [Bool.and_eq_true, Bool.not_eq_true', Bool.not_eq_true'] at hopen
        exact List.forall_mem_singleton.mpr ⟨rfl, hcause, hopen⟩
      · exact List.forall_mem_nil _
  | handOver p later hopen hbacklog =>
      exact List.forall_mem_singleton.mpr ⟨p, later, rfl, rfl, hopen, hbacklog⟩
  | fire hevent =>
      rcases calls_fireNext r with hcalls | ⟨s, hcalls⟩
      · rw [hcalls]
        exact List.forall_mem_nil _
      · rw [hcalls]
        exact List.forall_mem_singleton.mpr (Or.inr (Or.inr hevent))
  | _ => exact List.forall_mem_nil _

/-! ## Writing, taken apart -/

theorem destroyed_destroy (why : Option Refusal) (r : Relay) :
    (destroy why r).1.stream.destroyed = true := by
  cases hopen : r.stream.destroyed with
  | true =>
      rw [destroy_of_destroyed why hopen]
      exact hopen
  | false => exact (congrArg Vital.destroyed (vital_destroy why hopen) :)

theorem movesFrom_failWrite (p : Parcel) {error : Value} (h : r.child.writeError = some error) :
    (failWrite p error).MovesFrom e r := by
  refine movesFrom_reading ((movesFrom_report p rfl).andThen ?_)
  refine (movesFrom_destroy (.writeFailed ?_ _)).andThen
    (movesFrom_abandon (destroyed_destroy _ _) _)
  exact Option.isSome_of_eq_some h

/-- Texts are handed over in their order as long as the stream is there. -/
theorem movesFrom_passOn (texts : List Parcel) (hopen : r.stream.destroyed = false)
    (hbacklog : r.stream.backlog = texts) : (passOn texts).MovesFrom e r := by
  -- Handing a text over leaves the later ones waiting, which is the same claim about them.
  induction texts generalizing r with
  | nil => exact movesFrom_finishIfDue
  | cons p later ih =>
      refine (movesFrom_move (.handOver p later hopen hbacklog)).andThen (movesFrom_reading ?_)
      split
      · exact movesFrom_skip
      · split
        · exact (movesFrom_report p rfl).andThen (ih hopen rfl)
        · rename_i error herror
          exact movesFrom_failWrite p herror

theorem movesFrom_passWaiting (hopen : r.stream.destroyed = false) :
    passWaiting.MovesFrom e r :=
  movesFrom_reading (movesFrom_passOn _ hopen rfl)

theorem movesFrom_submit (p : Parcel) (h : e.text? = some p.text)
    (hopen : r.stream.destroyed = false)
    (hending : r.stream.ending = true → ∃ text, e = .endWrites text) :
    (submit p).MovesFrom e r :=
  (movesFrom_move (.takeOn p h hopen hending)).andThen <|
    movesFrom_when fun _ => movesFrom_passWaiting hopen

theorem movesFrom_goOn : goOn.MovesFrom e r := by
  refine movesFrom_reading ?_
  split
  · exact movesFrom_abandon (by assumption) _
  · exact movesFrom_passWaiting (Bool.eq_false_iff.mpr (by assumption))

theorem movesFrom_writeTaken (h : e = .taken) : writeTaken.MovesFrom e r := by
  refine movesFrom_reading ?_
  split
  · exact movesFrom_skip
  · rename_i p _
    refine (movesFrom_move (.release h)).andThen ?_
    split
    · exact (movesFrom_report p rfl).andThen movesFrom_goOn
    · rename_i error herror
      exact movesFrom_failWrite p herror

theorem movesFrom_write {text : String} (h : e = .write text) :
    (write text).MovesFrom e r := by
  refine movesFrom_reading ?_
  split
  · rename_i hending
    exact (movesFrom_tell rfl rfl).andThen (movesFrom_destroy (.afterEnd hending _))
  · rename_i hending
    split
    · exact movesFrom_tell rfl rfl
    · rename_i hopen
      exact movesFrom_submit ⟨text, true⟩ (congrArg RelayEvent.text? h)
        (Bool.eq_false_iff.mpr hopen) fun hno => absurd hno hending

theorem movesFrom_endWrites (h : e = .endWrites none) : endWrites.MovesFrom e r :=
  movesFrom_when fun _ => (movesFrom_move (.beginEnding ⟨none, h⟩)).andThen movesFrom_finishIfDue

theorem movesFrom_endWritesWith {text : String} (h : e = .endWrites (some text)) :
    (endWritesWith text).MovesFrom e r := by
  refine movesFrom_reading ?_
  split
  · rename_i hending
    exact movesFrom_destroy (.afterEnd hending _)
  · split
    · exact movesFrom_skip
    · rename_i hopen
      refine (movesFrom_move (.beginEnding ⟨some text, h⟩)).andThen ?_
      exact movesFrom_submit ⟨text, false⟩ (congrArg RelayEvent.text? h)
        (Bool.eq_false_iff.mpr hopen) fun _ => ⟨some text, h⟩

/-- A text is refused, which costs the stream or comes too late for it, or it is taken on once
    and texts are passed on.  Either way the moves are those of an event without a text. -/
theorem moves_text {text : String} (h : e.text? = some text) (r : Relay) :
    ((act e).MovesFrom .taken r ∧ (act e r).1.stream.destroyed = true)
      ∨ r.stream.destroyed = false ∧ r.stream.ending = false ∧ ∃ (p : Parcel) (t : Relay),
        p.text = text ∧ Moves .taken t (act e r).2 (act e r).1
          ∧ t.vital = { r.vital with
            ending := t.stream.ending, backlog := r.stream.backlog ++ [p] } := by
  cases e with
  | write given =>
      obtain rfl := Option.some.inj h
      show ((write given).MovesFrom .taken r ∧ (write given r).1.stream.destroyed = true) ∨ _
      rw [MovesFrom, act, write, reading]
      by_cases hending : r.stream.ending = true
      · rw [if_pos hending]
        exact Or.inl ⟨(movesFrom_tell rfl rfl).andThen (movesFrom_destroy (.afterEnd hending _)),
          destroyed_destroy _ _⟩
      rw [if_neg hending]
      by_cases hgone : r.stream.destroyed = true
      · rw [if_pos hgone]
        exact Or.inl ⟨movesFrom_tell rfl rfl, hgone⟩
      rw [if_neg hgone]
      have hopen : r.stream.destroyed = false := Bool.eq_false_iff.mpr hgone
      refine Or.inr ⟨hopen, Bool.eq_false_iff.mpr hending, ⟨given, true⟩, { r with stream :=
        { r.stream with backlog := r.stream.backlog ++ [⟨given, true⟩] } }, rfl, ?_, rfl⟩
      exact movesFrom_when fun _ => movesFrom_passWaiting hopen
  | endWrites given =>
      obtain rfl : given = some text := h
      show ((endWritesWith text).MovesFrom .taken r
        ∧ (endWritesWith text r).1.stream.destroyed = true) ∨ _
      rw [MovesFrom, act, endWritesWith, reading]
      by_cases hending : r.stream.ending = true
      · rw [if_pos hending]
        exact Or.inl ⟨movesFrom_destroy (.afterEnd hending _), destroyed_destroy _ _⟩
      rw [if_neg hending]
      by_cases hgone : r.stream.destroyed = true
      · rw [if_pos hgone]
        exact Or.inl ⟨movesFrom_skip, hgone⟩
      rw [if_neg hgone]
      have hopen : r.stream.destroyed = false := Bool.eq_false_iff.mpr hgone
      refine Or.inr ⟨hopen, Bool.eq_false_iff.mpr hending, ⟨text, false⟩, { r with stream :=
        { r.stream with ending := true, backlog := r.stream.backlog ++ [⟨text, false⟩] } },
        rfl, ?_, rfl⟩
      exact movesFrom_when fun _ => movesFrom_passWaiting hopen
  | _ => exact nomatch h

/-! ## Closing and the exit, taken apart -/

theorem exit_destroy (why : Option Refusal) (r : Relay) : (destroy why r).1.exit = r.exit := by
  cases hopen : r.stream.destroyed with
  | true => rw [destroy_of_destroyed why hopen]
  | false => exact (congrArg Vital.exit (vital_destroy why hopen) :)

theorem movesFrom_close (h : e = .close) : close.MovesFrom e r := by
  refine (movesFrom_note (vital_markClosed r)).andThen <|
    (movesFrom_move (.endInput (Or.inl h))).andThen (movesFrom_reading ?_)
  split
  · rename_i x hexit
    refine (movesFrom_destroy (.exited ?_ none)).andThen (movesFrom_answer rfl ?_)
    · exact Option.isSome_of_eq_some hexit
    · exact List.forall_mem_singleton.mpr ((exit_destroy none _).trans hexit)
  · rename_i hexit
    exact movesFrom_move (.await h hexit)

theorem movesFrom_wait : (act .wait).MovesFrom e r := by
  rw [act]
  refine movesFrom_reading ?_
  split
  · rename_i hexit
    exact movesFrom_answer rfl (List.forall_mem_singleton.mpr hexit)
  · exact movesFrom_note rfl

theorem calls_replicate (n : Nat) (notice : Notice) :
    Output.calls (List.replicate n (.notice notice)) = [] := by
  refine List.filterMap_eq_nil_iff.mpr fun o ho => ?_
  obtain rfl := List.eq_of_mem_replicate ho
  rfl

theorem eq_of_mem_answers_replicate {n : Nat} {notice : Notice} {x y : Exit}
    (hnotice : notice.answer? = some x)
    (h : y ∈ Output.answers (List.replicate n (.notice notice))) : y = x := by
  obtain ⟨o, ho, hy⟩ := List.mem_filterMap.mp h
  obtain rfl := List.eq_of_mem_replicate ho
  exact Option.some.inj (hy.symm.trans hnotice)

theorem movesFrom_answerWaiters (x : Exit) (h : r.exit = some x) :
    (answerWaiters x).MovesFrom e r := by
  have hsome : r.exit.isSome = true := Option.isSome_of_eq_some h
  have hanswer : ∀ (t : Relay) (n : Nat) (notice : Notice), t.exit = some x →
      notice.answer? = some x → (emit (List.replicate n (.notice notice))).MovesFrom e t := by
    intro t n notice ht hnotice
    refine movesFrom_answer (calls_replicate _ _) fun y hy => ?_
    rw [eq_of_mem_answers_replicate hnotice hy]
    exact ht
  refine movesFrom_reading ((movesFrom_move (.disarm hsome)).andThen ?_)
  refine (hanswer _ _ (.waited x) ?_ rfl).andThen ?_
  · exact h
  split
  · refine movesFrom_skip.andThen (hanswer _ _ (.closed x) ?_ rfl)
    exact h
  · refine (movesFrom_destroy (.exited ?_ none)).andThen (hanswer _ _ (.closed x) ?_ rfl)
    · exact hsome
    · exact (exit_destroy none _).trans h

/-- What the report of the exit does about a failed launch. -/
def failLaunch (x : Exit) : Act := reading fun r =>
  match exitFailure r x with
  | some f => destroy (some (.failure f))
  | none => skip

theorem childExit_eq (x : Exit) : childExit x = Act.when (·.exit.isNone)
    ((Act.modify (withExit x)).andThen <|
      (reading fun r => emit [.log (exitEntry r x)]).andThen <|
      (failLaunch x).andThen (answerWaiters x)) := rfl

theorem exit_failLaunch (x : Exit) (r : Relay) : (failLaunch x r).1.exit = r.exit := by
  rw [failLaunch, reading]
  cases exitFailure r x with
  | some f => exact exit_destroy _ r
  | none => rfl

theorem movesFrom_failLaunch (x : Exit) (h : r.exit.isSome = true) :
    (failLaunch x).MovesFrom e r := by
  refine movesFrom_reading ?_
  split
  · exact movesFrom_destroy (.exited h _)
  · exact movesFrom_skip

theorem movesFrom_childExit (x : Exit) (h : e = .exit x) : (childExit x).MovesFrom e r := by
  rw [childExit_eq]
  refine movesFrom_when fun hnone => ?_
  have hexit : r.exit = none := Option.isNone_iff_eq_none.mp hnone
  have hsome : (withExit x r).exit.isSome = true := rfl
  refine (movesFrom_move (.exit x h hexit)).andThen <|
    (movesFrom_reading (movesFrom_tell rfl rfl)).andThen <|
    (movesFrom_failLaunch x hsome).andThen (movesFrom_answerWaiters x ?_)
  -- A failed launch destroys the stream but does not take the report back.
  exact exit_failLaunch x (withExit x r)

/-- **Every rule is made of moves.** -/
theorem moves_act (e : RelayEvent) (r : Relay) : (act e).MovesFrom e r := by
  cases e with
  | spawned => exact movesFrom_when fun _ => movesFrom_note rfl
  | childError error => exact movesFrom_when fun _ => movesFrom_destroy (.asked rfl _)
  | output chunk => exact movesFrom_when fun _ => movesFrom_accept chunk
  | outputEnd => exact movesFrom_when fun hopen => movesFrom_endOutput rfl hopen
  | outputError error =>
      exact movesFrom_when fun _ => movesFrom_reading (movesFrom_destroy (.asked rfl _))
  | inputError error =>
      exact movesFrom_when fun _ => movesFrom_reading (movesFrom_destroy (.asked rfl _))
  | exit x => exact movesFrom_childExit x rfl
  | mark marked => exact movesFrom_move (.mark marked rfl)
  | failWrites error => exact movesFrom_move (.failWrites error rfl)
  | stall stalled => exact movesFrom_note rfl
  | taken => exact movesFrom_writeTaken rfl
  | read => exact movesFrom_beginReading
  | pause => exact movesFrom_note rfl
  | readNext => exact movesFrom_readNext
  | write text => exact movesFrom_write rfl
  | endWrites text =>
      cases text with
      | none => exact movesFrom_endWrites rfl
      | some text => exact movesFrom_endWritesWith rfl
  | kill signal => exact movesFrom_move (.signal signal (Or.inl rfl))
  | wait => exact movesFrom_wait
  | close => exact movesFrom_close rfl
  | destroy message => exact movesFrom_destroy (.asked rfl _)
  | timer => exact movesFrom_move (.fire rfl)
  | pass ms => exact movesFrom_move (.pass ms rfl)
  | programEnd => exact movesFrom_when fun _ => movesFrom_move (.signal .kill (Or.inr ⟨rfl, rfl⟩))

/-- What every move keeps an event keeps. -/
theorem act_keeps (past : List ChildCall) {P : List ChildCall → Relay → Prop}
    (hmove : ∀ {past r a}, Move e r a → P past r → P (past ++ Output.calls (a r).2) (a r).1)
    (hr : P past r) : P (past ++ Output.calls (act e r).2) (act e r).1 :=
  (moves_act e r).keeps past hmove hr

/-! ## Runs -/

theorem run_append (r : Relay) (before after : List RelayEvent) :
    r.run (before ++ after) = (((r.run before).1.run after).1,
      (r.run before).2 ++ ((r.run before).1.run after).2) := by
  induction before generalizing r with
  | nil => rfl
  | cons e before ih =>
      rw [List.cons_append, run, ih, run, List.append_assoc]

/-- A run with one event more. -/
theorem run_concat (r : Relay) (before : List RelayEvent) (e : RelayEvent) :
    (r.run (before ++ [e])).1 = (act e (r.run before).1).1
      ∧ Output.calls (r.run (before ++ [e])).2
        = Output.calls (r.run before).2 ++ Output.calls (act e (r.run before).1).2 := by
  rw [run_append]
  refine ⟨rfl, ?_⟩
  show Output.calls ((r.run before).2 ++ (Output.settle (act e (r.run before).1).2 ++ [])) = _
  rw [List.append_nil, Output.calls_append, Output.calls_settle]

/-- What every move on some events keeps, a run of such events keeps.  `past` is all that has
    been done to the process before the run. -/
theorem run_keeps_moves (past : List ChildCall) {Q : RelayEvent → Prop}
    {P : List ChildCall → Relay → Prop}
    (hmove : ∀ {e past r a}, Q e → Move e r a → P past r →
      P (past ++ Output.calls (a r).2) (a r).1)
    {r : Relay} (hr : P past r) {events : List RelayEvent} (hall : ∀ e ∈ events, Q e) :
    P (past ++ Output.calls (r.run events).2) (r.run events).1 := by
  induction events generalizing past r with
  | nil =>
      show P (past ++ []) r
      rw [List.append_nil]
      exact hr
  | cons e events ih =>
      obtain ⟨he, hevents⟩ := List.forall_mem_cons.mp hall
      -- What the first event does to the process belongs to the past of the others.
      have hrest := ih _ (act_keeps past (fun h hs => hmove he h hs) hr) hevents
      rw [run, Output.calls_append, step, Output.calls_settle, ← List.append_assoc]
      exact hrest

end Relay

end SshDial

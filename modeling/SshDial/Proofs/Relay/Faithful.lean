import SshDial.Proofs.Relay.Feed

/-! # Faithful — nothing is lost, repeated or reordered on the way

    Towards the reader the feed is the specification: as long as the stream is there the
    relay tells the reader what the feed says, and what the reader has been given and what
    waits for it make up all that the process has put out (`Feed.chunks_after_putOut`).

    Towards the process a `Ledger` is kept: the texts that have been passed on and those
    that wait are the texts that the caller has written, in order.  A text is taken on once,
    when it is written, and moves from the one part to the other when it is handed over; no
    other move touches either (`Relay.ledger_move`). -/

namespace SshDial

namespace RelayEvent

/-- What the process puts out, up to the end of its output. -/
def putOut : List RelayEvent → List String
  | [] => []
  | .outputEnd :: _ => []
  | .output chunk :: events => chunk :: putOut events
  | _ :: events => putOut events

/-- The texts that the caller writes. -/
def wrote (events : List RelayEvent) : List String := events.filterMap text?

theorem putOut_append_of_mem {before : List RelayEvent} (h : .outputEnd ∈ before)
    (after : List RelayEvent) : putOut (before ++ after) = putOut before := by
  induction before with
  | nil => exact nomatch h
  | cons e before ih =>
      rcases List.mem_cons.mp h with rfl | hlater
      · rfl
      · have hrest := ih hlater
        cases e with
        | outputEnd => rfl
        | output chunk => exact congrArg (chunk :: ·) hrest
        | _ => exact hrest

end RelayEvent

namespace Output

/-- The chunks that a reader is given. -/
def delivered (outputs : List Output) : List String :=
  (news outputs).filterMap fun
    | .data chunk => some chunk
    | _ => none

/-- The texts that the process is handed. -/
def passed (outputs : List Output) : List String :=
  (calls outputs).filterMap fun
    | .write text => some text
    | _ => none

end Output

namespace Feed

/-- The chunks that are not empty. -/
def solid (chunks : List String) : List String := chunks.filter (· ≠ "")

theorem join_solid (chunks : List String) : String.join (solid chunks) = String.join chunks := by
  induction chunks with
  | nil => rfl
  | cons chunk chunks ih =>
      by_cases hempty : chunk = ""
      · rw [solid, List.filter_cons_of_neg (by simp [hempty]), hempty, String.join_cons,
          String.empty_append]
        exact ih
      · rw [solid, List.filter_cons_of_pos (by simp [hempty]), String.join_cons, String.join_cons]
        exact congrArg (chunk ++ ·) ih

/-- What comes after the end of the output is none of it. -/
theorem chunks_after_of_ended {f : Feed} (h : f.ended = true) (events : List RelayEvent) :
    (f.after events).chunks = f.chunks := by
  induction events generalizing f with
  | nil => rfl
  | cons e events ih =>
      have hnext : (f.next e).chunks = f.chunks := by
        cases e with
        | output chunk =>
            rw [next, h, Bool.true_or]
            rfl
        | _ => exact (chunks_next fun _ => rfl).trans (List.append_nil _)
      exact (ih (ended_next.mpr (Or.inl h))).trans hnext

theorem chunks_after_putOut {f : Feed} (h : f.ended = false) (events : List RelayEvent) :
    (f.after events).chunks = f.chunks ++ solid (RelayEvent.putOut events) := by
  induction events generalizing f with
  | nil => exact (List.append_nil _).symm
  | cons e events ih =>
      by_cases hend : e = .outputEnd
      · subst hend
        have hnext : (f.next .outputEnd).chunks = f.chunks :=
          (chunks_next fun _ => rfl).trans (List.append_nil _)
        show ((f.next .outputEnd).after events).chunks = _
        rw [chunks_after_of_ended rfl, hnext]
        exact (List.append_nil _).symm
      have hended : (f.next e).ended = false := by
        refine Bool.eq_false_iff.mpr fun hyes => ?_
        rcases ended_next.mp hyes with hyes | hyes
        · exact Bool.eq_false_iff.mp h hyes
        · exact hend hyes
      have hnext : (f.next e).chunks = f.chunks ++ e.chunk?.toList :=
        chunks_next fun hyes => absurd hyes (Bool.eq_false_iff.mp h)
      have hfirst : solid (RelayEvent.putOut (e :: events))
          = e.chunk?.toList ++ solid (RelayEvent.putOut events) := by
        cases e with
        | outputEnd => exact absurd rfl hend
        | output chunk =>
            by_cases hempty : chunk = ""
            · simp [RelayEvent.putOut, RelayEvent.chunk?, solid, hempty]
            · simp [RelayEvent.putOut, RelayEvent.chunk?, solid, hempty]
        | _ => rfl
      show ((f.next e).after events).chunks = _
      rw [ih hended, hnext, hfirst, List.append_assoc]

/-- A reader who has been told the end has been given everything, and the end came last. -/
theorem told_of_ended {f : Feed} (hsound : f.Sound) (h : .ended ∈ f.told) :
    f.ended = true ∧ f.told = f.chunks.map .data ++ [.ended] := by
  have hheard : f.endHeard = true := by
    rcases List.mem_append.mp h with h | h
    · obtain ⟨chunk, -, hno⟩ := List.mem_map.mp h
      exact nomatch hno
    · cases hheard : f.endHeard with
      | true => rfl
      | false =>
          rw [hheard] at h
          exact nomatch h
  obtain ⟨hended, hwaiting⟩ := hsound.through hheard
  refine ⟨hended, ?_⟩
  rw [told, chunks, hheard, hwaiting, List.append_nil]
  rfl

end Feed

namespace Relay

theorem destroyed_run {r : Relay} (hpipes : r.PipesAgree) (hgone : r.stream.destroyed = true)
    (events : List RelayEvent) : (r.run events).1.stream.destroyed = true := by
  induction events generalizing r with
  | nil => exact hgone
  | cons e events ih => exact ih (pipesAgree_act e hpipes) (destroyed_act e hpipes hgone)

/-- What a reader is told in a run is what the feed says up to the destruction of the stream,
    or to the last event. -/
theorem run_told {f : Feed} {r : Relay} (hsound : f.Sound) (h : r.Follows f)
    (hpipes : r.PipesAgree) (hopen : r.stream.destroyed = false) (events : List RelayEvent) :
    ∃ before after, events = before ++ after
      ∧ f.told ++ Output.news (r.run events).2 = (f.after before).told
      ∧ ((r.run events).1.stream.destroyed = false →
        after = [] ∧ (r.run events).1.Follows (f.after events)) := by
  -- The relay follows the feed until the stream is gone; from then on the reader hears nothing.
  induction events generalizing f r with
  | nil => exact ⟨[], [], rfl, List.append_nil _, fun _ => ⟨rfl, h⟩⟩
  | cons e events ih =>
      obtain ⟨hfollows, hnews⟩ := act_follows e hsound h hpipes hopen
      have hpipes' : (act e r).1.PipesAgree := pipesAgree_act e hpipes
      have hsplit : f.told ++ Output.news (r.run (e :: events)).2
          = (f.next e).told ++ Output.news ((act e r).1.run events).2 := by
        rw [run, Output.news_append, step, Output.news_settle, ← List.append_assoc, hnews]
      rw [hsplit]
      cases hgone : (act e r).1.stream.destroyed with
      | true =>
          refine ⟨[e], events, rfl, ?_, fun hno => ?_⟩
          · rw [run_of_destroyed hpipes' hgone, List.append_nil]
            rfl
          · have hstill : (r.run (e :: events)).1.stream.destroyed = true :=
              destroyed_run hpipes' hgone events
            exact absurd hstill (Bool.eq_false_iff.mp hno)
      | false =>
          obtain ⟨before, after, rfl, htold, hrest⟩ := ih (hsound.next e) hfollows hpipes' hgone
          exact ⟨e :: before, after, rfl, htold, hrest⟩

/-! ## The texts on their way to the process -/

/-- The texts among some calls. -/
def texts (calls : List ChildCall) : List String :=
  calls.filterMap fun
    | .write text => some text
    | _ => none

/-- The texts that have been passed on are the first of those that the caller has written, and
    as long as the stream is there the others wait. -/
structure Ledger (wrote : List String) (past : List ChildCall) (v : Vital) : Prop where
  inOrder : texts past <+: wrote
  rest : v.destroyed = false → texts past ++ v.backlog.map Parcel.text = wrote

variable {e : RelayEvent} {r : Relay} {a : Act} {wrote : List String}
  {past calls : List ChildCall} {v w : Vital}

theorem texts_append (calls more : List ChildCall) :
    texts (calls ++ more) = texts calls ++ texts more :=
  List.filterMap_append

/-- Nothing is passed on, and what waits goes on waiting unless the stream is gone. -/
theorem Ledger.keep (h : Ledger wrote past v) (hcalls : texts calls = [])
    (hrest : w.destroyed = false → v.destroyed = false ∧ w.backlog = v.backlog) :
    Ledger wrote (past ++ calls) w := by
  have hsame : texts (past ++ calls) = texts past := by
    rw [texts_append, hcalls, List.append_nil]
  refine ⟨hsame ▸ h.inOrder, fun hopen => ?_⟩
  obtain ⟨hbefore, hbacklog⟩ := hrest hopen
  rw [hsame, hbacklog]
  exact h.rest hbefore

/-- The first text that waits is passed on. -/
theorem Ledger.handOver {p : Parcel} {later : List Parcel} (h : Ledger wrote past v)
    (hopen : v.destroyed = false) (hbacklog : v.backlog = p :: later)
    (hlater : w.backlog = later) : Ledger wrote (past ++ [.write p.text]) w := by
  have hwrote : (texts past ++ [p.text]) ++ later.map Parcel.text = wrote := by
    rw [List.append_assoc]
    have hrest := h.rest hopen
    rw [hbacklog] at hrest
    exact hrest
  have htexts : texts (past ++ [.write p.text]) = texts past ++ [p.text] := texts_append past _
  refine ⟨⟨later.map Parcel.text, ?_⟩, fun _ => ?_⟩
  · rw [htexts, hwrote]
  · rw [htexts, hlater, hwrote]

/-- **One move at a time.** On an event that brings no text the ledger stays right. -/
theorem ledger_move (he : e.text? = none) (h : Move e r a) (hr : Ledger wrote past r.vital) :
    Ledger wrote (past ++ Output.calls (a r).2) (a r).1.vital := by
  cases h with
  | note hsame =>
      refine hr.keep rfl fun hopen => ⟨?_, (congrArg Vital.backlog hsame :)⟩
      exact (congrArg Vital.destroyed hsame :).symm.trans hopen
  | tell hcalls =>
      refine hr.keep (List.filterMap_eq_nil_iff.mpr fun c hc => ?_) fun hopen => ⟨hopen, rfl⟩
      rw [hcalls c hc]
  | signal s _ =>
      rw [vital_sendSignal, calls_sendSignal]
      refine hr.keep ?_ fun hopen => ⟨hopen, rfl⟩
      split
      · rfl
      · rfl
  | destroy why hopen _ =>
      rw [vital_destroy why hopen, calls_destroy why hopen]
      refine hr.keep ?_ fun hno => nomatch hno
      split
      · rfl
      · rfl
  | endInput _ =>
      rw [vital_endInput, calls_endInput]
      split
      · exact hr.keep rfl fun hopen => ⟨hopen, rfl⟩
      · exact hr.keep rfl fun hopen => ⟨hopen, rfl⟩
  | endOutput _ _ =>
      have hvital := vital_withOutputEnded r
      refine hr.keep rfl fun hopen => ⟨?_, (congrArg Vital.backlog hvital :)⟩
      exact (congrArg Vital.destroyed hvital :).symm.trans hopen
  | takeOn p hevent _ _ =>
      rw [he] at hevent
      exact nomatch hevent
  | handOver p later hopen hbacklog => exact hr.handOver hopen hbacklog rfl
  | giveUp hgone => exact hr.keep rfl fun hopen => absurd hgone (Bool.eq_false_iff.mp hopen)
  | fire _ =>
      obtain ⟨timers, now, hvital⟩ := vital_fireNext r
      rw [hvital]
      refine hr.keep ?_ fun hopen => ⟨hopen, rfl⟩
      rcases calls_fireNext r with hcalls | ⟨s, hcalls⟩
      · rw [hcalls]
        rfl
      · rw [hcalls]
        rfl
  | _ => exact hr.keep rfl fun hopen => ⟨hopen, rfl⟩

theorem ledger_moves {outputs : List Output} {s : Relay} (h : Moves .taken r outputs s)
    (hr : Ledger wrote past r.vital) : Ledger wrote (past ++ Output.calls outputs) s.vital :=
  h.keeps _ (P := fun past s => Ledger wrote past s.vital) (fun h hs => ledger_move rfl h hs) hr

/-- **One event at a time.** A text that the caller writes is taken on once, or the stream is
    gone. -/
theorem ledger_act (e : RelayEvent) (hr : Ledger wrote past r.vital) :
    Ledger (wrote ++ e.text?.toList) (past ++ Output.calls (act e r).2) (act e r).1.vital := by
  cases htext : e.text? with
  | none =>
      rw [Option.toList_none, List.append_nil]
      exact act_keeps _ (P := fun past s => Ledger wrote past s.vital)
        (fun h hs => ledger_move htext h hs) hr
  | some text =>
      show Ledger (wrote ++ [text]) _ _
      rcases moves_text htext r with ⟨hmoves, hgone⟩ | ⟨hopen, -, p, t, rfl, hmoves, hvital⟩
      · obtain ⟨hinOrder, -⟩ := ledger_moves hmoves hr
        exact ⟨hinOrder.trans (List.prefix_append _ _), fun hno =>
          absurd hgone (Bool.eq_false_iff.mp hno)⟩
      · -- It waits behind all others, and the moves that follow bring no text.
        refine ledger_moves hmoves ?_
        rw [hvital]
        refine ⟨hr.inOrder.trans (List.prefix_append _ _), fun _ => ?_⟩
        have hrest : texts past ++ r.stream.backlog.map Parcel.text = wrote := hr.rest hopen
        rw [List.map_append, ← List.append_assoc, hrest]
        rfl

/-- In a run the texts that wait come first, and then what the caller writes. -/
theorem ledger_run (r : Relay) (events : List RelayEvent) :
    Ledger (r.stream.backlog.map Parcel.text ++ RelayEvent.wrote events)
      (Output.calls (r.run events).2) (r.run events).1.vital := by
  induction events using List.reverseRecOn with
  | nil => exact ⟨List.nil_prefix, fun _ => (List.append_nil _).symm⟩
  | append_singleton before e ih =>
      have hwrote : RelayEvent.wrote (before ++ [e])
          = RelayEvent.wrote before ++ e.text?.toList := by
        rw [RelayEvent.wrote, List.filterMap_append, RelayEvent.wrote]
        cases htext : e.text? with
        | none =>
            rw [List.filterMap_cons_none htext]
            rfl
        | some text =>
            rw [List.filterMap_cons_some htext]
            rfl
      obtain ⟨hstate, hcalls⟩ := run_concat r before e
      rw [hstate, hcalls, hwrote, ← List.append_assoc]
      exact ledger_act e ih

/-! ## Both directions -/

theorem delivered_eq {outputs : List Output} {f : Feed} (h : Output.news outputs = f.told) :
    Output.delivered outputs = f.heard := by
  have hchunks : ∀ chunks : List String, (chunks.map Notice.data).filterMap
      (fun | .data chunk => some chunk | _ => none) = chunks := by
    intro chunks
    induction chunks with
    | nil => rfl
    | cons chunk chunks ih => exact congrArg (chunk :: ·) ih
  rw [Output.delivered, h, Feed.told, List.filterMap_append, hchunks]
  cases f.endHeard with
  | true => exact List.append_nil _
  | false => exact List.append_nil _

/-- **A relay is faithful in both directions.** In every run, whatever the order of its
    events: as long as the stream is there, what the reader has been given and what waits for
    it are all that the process has put out; the end is told only when the output has ended,
    and after all of it; the texts that the process has been handed are the first of those
    that the caller has written, and as long as the stream is there the others wait. -/
theorem relay_faithful (command : String) (patience now : Rat) (pid : Option Int)
    (reading : Bool) (events : List RelayEvent) :
    let r := ((fresh command patience now pid reading).run events).1
    let outputs := ((fresh command patience now pid reading).run events).2
    (r.stream.destroyed = false →
        String.join (Output.delivered outputs) ++ String.join r.stream.queue
          = String.join (RelayEvent.putOut events))
      ∧ (.ended ∈ Output.news outputs → .outputEnd ∈ events
        ∧ Output.news outputs
          = (Feed.solid (RelayEvent.putOut events)).map .data ++ [.ended])
      ∧ Output.passed outputs <+: RelayEvent.wrote events
      ∧ (r.stream.destroyed = false →
        Output.passed outputs ++ r.stream.backlog.map Parcel.text = RelayEvent.wrote events) := by
  intro r outputs
  have hledger : Ledger (RelayEvent.wrote events) (Output.calls outputs) r.vital :=
    ledger_run (fresh command patience now pid reading) events
  have hsound : (Feed.fresh reading).Sound := Feed.sound_fresh reading
  obtain ⟨before, after, hsplit, htold, hopen⟩ := run_told hsound
    (follows_fresh command patience now pid reading) rfl rfl events
  have hnews : Output.news outputs = ((Feed.fresh reading).after before).told := htold
  have hchunks : ∀ some : List RelayEvent, ((Feed.fresh reading).after some).chunks
      = Feed.solid (RelayEvent.putOut some) := fun some => Feed.chunks_after_putOut rfl some
  refine ⟨fun hthere => ?_, fun hend => ?_, hledger.inOrder, hledger.rest⟩
  · obtain ⟨rfl, hfollows⟩ := hopen hthere
    rw [List.append_nil] at hsplit
    rw [← hsplit] at hnews
    rw [delivered_eq hnews, hfollows.queue, ← String.join_append, ← Feed.chunks, hchunks,
      Feed.join_solid]
  · -- After the end of the output no more of it counts, so `before` has put out everything.
    rw [hnews] at hend
    obtain ⟨hended, hall⟩ := Feed.told_of_ended (hsound.after before) hend
    have hmem : .outputEnd ∈ before := by
      rcases Feed.ended_after.mp hended with hno | hmem
      · cases hno
      · exact hmem
    have hput : RelayEvent.putOut events = RelayEvent.putOut before := by
      rw [hsplit, RelayEvent.putOut_append_of_mem hmem]
    refine ⟨hsplit ▸ List.mem_append_left _ hmem, ?_⟩
    rw [hnews, hall, hchunks, hput]

/-- A reader who pauses and takes chunks one by one, a process that takes its time over a
    write, and a caller who ends its writing before the process has taken everything. -/
theorem relay_faithful_paused :
    let events : List RelayEvent := [.spawned, .output "ab", .pause, .output "", .output "cd",
      .output "ef", .stall true, .write "x", .write "y", .endWrites (some "z"), .readNext, .taken]
    let r := (fresh "nc" defaultPatience 0 (some 1) true).run events
    r.1.stream.destroyed = false
      ∧ String.join (Output.delivered r.2) ++ String.join r.1.stream.queue = "abcdef"
      ∧ Output.passed r.2 ++ r.1.stream.backlog.map Parcel.text = ["x", "y", "z"] := by
  intro events r
  have hopen : r.1.stream.destroyed = false := rfl
  obtain ⟨hread, -, -, hwritten⟩ := relay_faithful "nc" defaultPatience 0 (some 1) true events
  refine ⟨hopen, (hread hopen).trans ?_, hwritten hopen⟩
  decide

end Relay

end SshDial

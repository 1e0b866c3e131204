import SshDial.Proofs.Relay.Move

/-! # The feed — what a reader is told

    A `Feed` is what the events so far come to for a reader: whether there is one, which
    chunks it has been given and which wait for it, whether the output has ended and
    whether the reader knows.  It knows nothing of destruction.  As long as the stream is
    there the relay tells the reader what the feed says (`Relay.act_follows`), and once the
    stream is destroyed it tells the reader nothing more (`Relay.run_of_destroyed`).

    Most rules have no part in this; `Act.IsBackstage` is what they have in common. -/

namespace SshDial

/-- What a reader is told by an output, if it is told anything: a chunk, or the end. -/
def Output.news? : Output → Option Notice
  | .notice (.data chunk) => some (.data chunk)
  | .notice .ended => some .ended
  | _ => none

/-- What a reader is told. -/
def Output.news (outputs : List Output) : List Notice := outputs.filterMap Output.news?

namespace Output

theorem news_append (outputs more : List Output) :
    news (outputs ++ more) = news outputs ++ news more :=
  List.filterMap_append

theorem news_eq_nil {outputs : List Output} (h : ∀ o ∈ outputs, o.news? = none) :
    news outputs = [] :=
  List.filterMap_eq_nil_iff.mpr h

/-- News of the stream's destruction is none for a reader. -/
theorem news?_of_isLate {o : Output} (h : o.isLate = true) : o.news? = none := by
  cases o with
  | call c => rfl
  | log e => rfl
  | notice n =>
      cases n with
      | data chunk => exact nomatch h
      | ended => exact nomatch h
      | _ => rfl

/-- Putting the news of destruction last changes nothing for a reader. -/
theorem news_settle (outputs : List Output) : news (settle outputs) = news outputs := by
  have hlate : news (outputs.filter (·.isLate)) = [] :=
    news_eq_nil fun o ho => news?_of_isLate (List.mem_filter.mp ho).2
  have hsame : (fun o : Output => if (!o.isLate) = true then o.news? else none) = news? := by
    funext o
    cases ho : o.isLate with
    | true => exact (news?_of_isLate ho).symm
    | false => rfl
  rw [settle, news_append, hlate, List.append_nil, news, List.filterMap_filter, hsame, news]

end Output

namespace RelayEvent

/-- The chunk that the process puts out, if it puts one out that is not empty. -/
def chunk? : RelayEvent → Option String
  | .output chunk => if chunk = "" then none else some chunk
  | _ => none

/-- All that the process puts out, without the empty chunks. -/
def chunks (events : List RelayEvent) : List String := events.filterMap chunk?

end RelayEvent

/-- What the events so far come to for a reader. -/
structure Feed where
  /-- Is there a reader? -/
  reading : Bool
  /-- The chunks that the reader has been given, without the empty ones. -/
  heard : List String
  /-- The chunks that wait for a reader, without the empty ones. -/
  waiting : List String
  /-- Has the output ended? -/
  ended : Bool
  /-- Has the reader been told that it has? -/
  endHeard : Bool
  deriving DecidableEq, Repr

namespace Feed

/-- Nothing has happened yet. -/
def fresh (reading : Bool) : Feed := ⟨reading, [], [], false, false⟩

/-- The chunks that have been put out, without the empty ones. -/
def chunks (f : Feed) : List String := f.heard ++ f.waiting

/-- The feed after one event more. -/
def next (f : Feed) : RelayEvent → Feed
  | .read =>
    { f with reading := true, heard := f.chunks, waiting := [], endHeard := f.endHeard || f.ended }
  | .pause => { f with reading := false }
  | .readNext =>
    { f with
      heard := f.heard ++ f.waiting.take 1
      waiting := f.waiting.drop 1
      endHeard := f.endHeard || ((f.waiting.drop 1).isEmpty && f.ended) }
  | .output chunk =>
    if f.ended || chunk = "" then f
    else if f.reading then { f with heard := f.chunks ++ [chunk], waiting := [] }
    else { f with waiting := f.waiting ++ [chunk] }
  | .outputEnd => { f with ended := true, endHeard := f.endHeard || f.reading }
  | _ => f

/-- The feed after some events more. -/
def after (f : Feed) (events : List RelayEvent) : Feed := events.foldl next f

/-- What the reader has been told: chunks in order, and then perhaps the end. -/
def told (f : Feed) : List Notice :=
  f.heard.map .data ++ (if f.endHeard then [.ended] else [])

/-- Nothing waits for a reader who is there, nor for one who knows of the end. -/
structure Sound (f : Feed) : Prop where
  caughtUp : f.reading = true → f.waiting = []
  informed : f.reading = true → f.ended = true → f.endHeard = true
  through : f.endHeard = true → f.ended = true ∧ f.waiting = []

theorem sound_fresh (reading : Bool) : (fresh reading).Sound :=
  ⟨fun _ => rfl, fun _ h => (nomatch h), fun h => (nomatch h)⟩

theorem Sound.next {f : Feed} (h : f.Sound) (e : RelayEvent) : (f.next e).Sound := by
  obtain ⟨hcaughtUp, hinformed, hthrough⟩ := h
  cases e with
  | read =>
      refine ⟨fun _ => rfl, fun _ hended => ?_, fun hheard => ⟨?_, rfl⟩⟩
      · simp only [Feed.next] at hended ⊢
        simp [hended]
      · rcases Bool.or_eq_true_iff.mp hheard with hheard | hended
        · exact (hthrough hheard).1
        · exact hended
  | pause => exact ⟨fun hno => (nomatch hno), fun hno => (nomatch hno), hthrough⟩
  | readNext =>
      refine ⟨fun hreading => ?_, fun hreading hended => ?_, fun hheard => ?_⟩
      · simp [Feed.next, hcaughtUp hreading]
      · simp [Feed.next, hinformed hreading hended]
      · rcases Bool.or_eq_true_iff.mp hheard with hheard | hlast
        · simp [Feed.next, hthrough hheard]
        · obtain ⟨hempty, hended⟩ := Bool.and_eq_true_iff.mp hlast
          exact ⟨hended, List.isEmpty_iff.mp hempty⟩
  | output chunk =>
      rw [Feed.next]
      by_cases hskip : (f.ended || decide (chunk = "")) = true
      · rw [if_pos hskip]
        exact ⟨hcaughtUp, hinformed, hthrough⟩
      · rw [if_neg hskip]
        by_cases hreading : f.reading = true
        · rw [if_pos hreading]
          exact ⟨fun _ => rfl, hinformed, fun hheard => ⟨(hthrough hheard).1, rfl⟩⟩
        · rw [if_neg hreading]
          refine ⟨fun hno => absurd hno hreading, hinformed, fun hheard => ?_⟩
          rw [(hthrough hheard).1, Bool.true_or] at hskip
          exact absurd rfl hskip
  | outputEnd =>
      refine ⟨hcaughtUp, fun hreading _ => ?_, fun hheard => ⟨rfl, ?_⟩⟩
      · exact Bool.or_eq_true_iff.mpr (Or.inr hreading)
      · rcases Bool.or_eq_true_iff.mp hheard with hheard | hreading
        · exact (hthrough hheard).2
        · exact hcaughtUp hreading
  | _ => exact ⟨hcaughtUp, hinformed, hthrough⟩

theorem Sound.after {f : Feed} (h : f.Sound) (events : List RelayEvent) :
    (f.after events).Sound := by
  induction events generalizing f with
  | nil => exact h
  | cons e events ih => exact ih (h.next e)

/-- A reader who has been told the end has been told everything. -/
theorem told_next_of_through {f : Feed} (h : f.Sound) (hheard : f.endHeard = true)
    (e : RelayEvent) : (f.next e).endHeard = true ∧ (f.next e).told = f.told := by
  obtain ⟨hended, hwaiting⟩ := h.through hheard
  cases e with
  | output chunk => simp [next, hended, hheard]
  | read => simp [next, told, chunks, hheard, hwaiting]
  | readNext => simp [next, told, hheard, hwaiting]
  | outputEnd => simp [next, told, hheard]
  | _ => exact ⟨hheard, rfl⟩

theorem chunks_next {f : Feed} {e : RelayEvent} (h : f.ended = true → e.chunk? = none) :
    (f.next e).chunks = f.chunks ++ e.chunk?.toList := by
  cases e with
  | output chunk =>
      by_cases hempty : chunk = ""
      · simp [next, RelayEvent.chunk?, hempty]
      · have hopen : f.ended = false := by
          refine Bool.eq_false_iff.mpr fun hended => ?_
          have hnone := h hended
          rw [RelayEvent.chunk?, if_neg hempty] at hnone
          exact nomatch hnone
        cases hreading : f.reading <;>
          simp [next, chunks, RelayEvent.chunk?, hempty, hopen, hreading]
  | read => simp [next, chunks, RelayEvent.chunk?]
  | readNext =>
      show (f.heard ++ f.waiting.take 1) ++ f.waiting.drop 1 = f.chunks ++ []
      rw [List.append_assoc, List.take_append_drop, List.append_nil, chunks]
  | _ => exact (List.append_nil _).symm

/-- A chunk changes nothing about the feed but the chunks. -/
theorem next_output (f : Feed) (chunk : String) :
    (f.next (.output chunk)).reading = f.reading ∧ (f.next (.output chunk)).ended = f.ended := by
  rw [next]
  split
  · exact ⟨rfl, rfl⟩
  · split
    · exact ⟨rfl, rfl⟩
    · exact ⟨rfl, rfl⟩

theorem ended_next {f : Feed} {e : RelayEvent} :
    (f.next e).ended = true ↔ f.ended = true ∨ e = .outputEnd := by
  cases e with
  | output chunk => simp [next_output]
  | _ => simp [next]

theorem reading_next {f : Feed} {e : RelayEvent} (h : e ≠ .pause) :
    (f.next e).reading = true ↔ f.reading = true ∨ e = .read := by
  cases e with
  | output chunk => simp [next_output]
  | pause => exact absurd rfl h
  | _ => simp [next]

theorem chunks_after {f : Feed} {events : List RelayEvent}
    (horder : events.Pairwise fun e later => e = .outputEnd → later.chunk? = none)
    (hended : f.ended = true → ∀ e ∈ events, e.chunk? = none) :
    (f.after events).chunks = f.chunks ++ RelayEvent.chunks events := by
  induction events generalizing f with
  | nil => exact (List.append_nil _).symm
  | cons e events ih =>
      obtain ⟨hlater, horder⟩ := List.pairwise_cons.mp horder
      have hended' : (f.next e).ended = true → ∀ e' ∈ events, e'.chunk? = none := by
        intro hnow e' he'
        rcases ended_next.mp hnow with hbefore | hend
        · exact hended hbefore e' (List.mem_cons_of_mem e he')
        · exact hlater e' he' hend
      have hfirst : RelayEvent.chunks (e :: events)
          = e.chunk?.toList ++ RelayEvent.chunks events := by
        rw [RelayEvent.chunks, List.filterMap_cons]
        cases e.chunk? with
        | none => rfl
        | some chunk => rfl
      have hnext := chunks_next fun h => hended h e List.mem_cons_self
      show ((f.next e).after events).chunks = _
      rw [ih horder hended', hnext, hfirst, List.append_assoc]

theorem chunks_after_fresh (reading : Bool) {events : List RelayEvent}
    (horder : events.Pairwise fun e later => e = .outputEnd → later.chunk? = none) :
    ((fresh reading).after events).chunks = RelayEvent.chunks events := by
  have hfresh : (fresh reading).ended = true → ∀ e ∈ events, e.chunk? = none :=
    fun hno => nomatch hno
  rw [chunks_after horder hfresh]
  exact List.nil_append _

theorem ended_after {f : Feed} {events : List RelayEvent} :
    (f.after events).ended = true ↔ f.ended = true ∨ .outputEnd ∈ events := by
  induction events generalizing f with
  | nil => simp [after]
  | cons e events ih =>
      show ((f.next e).after events).ended = true ↔ _
      rw [ih, ended_next, List.mem_cons, or_assoc, eq_comm (a := e)]

theorem reading_after {f : Feed} {events : List RelayEvent} (h : .pause ∉ events) :
    (f.after events).reading = true ↔ f.reading = true ∨ .read ∈ events := by
  induction events generalizing f with
  | nil => simp [after]
  | cons e events ih =>
      have hfirst : e ≠ .pause := fun he => h (he ▸ List.mem_cons_self)
      have hlater : .pause ∉ events := fun he => h (List.mem_cons_of_mem e he)
      show ((f.next e).after events).reading = true ↔ _
      rw [ih hlater, reading_next hfirst, List.mem_cons, or_assoc, eq_comm (a := e)]

end Feed

namespace Relay

/-- What reading depends on. -/
def readerSide (r : Relay) : Bool × List String × Bool × Bool × Nat :=
  (r.stream.reading, r.stream.queue, r.stream.endShown, r.child.outputEnded, r.received)

/-- The relay stands where the feed says. -/
structure Follows (f : Feed) (r : Relay) : Prop where
  reading : r.stream.reading = f.reading
  queue : r.stream.queue = f.waiting
  endShown : r.stream.endShown = f.endHeard
  outputEnded : r.child.outputEnded = f.ended
  received : r.received = 0 ↔ f.chunks = []

theorem Follows.of_readerSide {f : Feed} {r t : Relay} (h : r.Follows f)
    (hside : t.readerSide = r.readerSide) : t.Follows f := by
  obtain ⟨hreading, hside⟩ := Prod.mk.inj hside
  obtain ⟨hqueue, hside⟩ := Prod.mk.inj hside
  obtain ⟨hendShown, hside⟩ := Prod.mk.inj hside
  obtain ⟨houtputEnded, hreceived⟩ := Prod.mk.inj hside
  exact ⟨hreading.trans h.reading, hqueue.trans h.queue, hendShown.trans h.endShown,
    houtputEnded.trans h.outputEnded, by rw [hreceived]; exact h.received⟩

theorem follows_fresh (command : String) (patience now : Rat) (pid : Option Int)
    (reading : Bool) :
    (fresh command patience now pid reading).Follows (.fresh reading) where
  reading := rfl
  queue := rfl
  endShown := rfl
  outputEnded := rfl
  received := ⟨fun _ => rfl, fun _ => rfl⟩

/-- The pipe for the output is let go of with the stream. -/
def PipesAgree (r : Relay) : Prop := r.child.outputDestroyed = r.stream.destroyed

/-- What reading depends on, and what is gone. -/
def outputSide (r : Relay) : (Bool × List String × Bool × Bool × Nat) × Bool × Bool :=
  (r.readerSide, r.stream.destroyed, r.child.outputDestroyed)

end Relay

namespace Act

/-- The act lets go of the stream and of the output together, and brings neither back. -/
def KeepsGone (a : Act) : Prop :=
  ∀ gone : Bool, a.Keeps
    (fun r => r.PipesAgree ∧ (gone = true → r.stream.destroyed = true)) fun _ => True

/-- The act tells a reader nothing and leaves what reading depends on as it is. -/
structure IsAside (a : Act) : Prop where
  frame : ∀ r, (a r).1.readerSide = r.readerSide
  silent : ∀ r, Output.news (a r).2 = []

/-- An act that is of no concern to a reader, unless it gives the stream up. -/
structure IsBackstage (a : Act) : Prop extends IsAside a where
  gone : a.KeepsGone

variable {a b : Act}

theorem keepsGone_modify {f : Relay → Relay}
    (h : ∀ r, (f r).stream.destroyed = r.stream.destroyed
      ∧ (f r).child.outputDestroyed = r.child.outputDestroyed) : (modify f).KeepsGone := by
  refine fun gone => keeps_modify fun r hr => ?_
  obtain ⟨hstream, hchild⟩ := h r
  exact ⟨hchild.trans (hr.1.trans hstream.symm), fun hgone => hstream.trans (hr.2 hgone)⟩

theorem keepsGone_emit {outputs : List Output} : (emit outputs).KeepsGone :=
  fun _ => keeps_emit fun _ _ => trivial

theorem KeepsGone.andThen (ha : a.KeepsGone) (hb : b.KeepsGone) : (a.andThen b).KeepsGone :=
  fun gone => (ha gone).andThen (hb gone)

theorem keepsGone_reading {f : Relay → Act} (h : ∀ r, (f r).KeepsGone) :
    (reading f).KeepsGone :=
  fun gone => keeps_reading fun r _ => h r gone

theorem KeepsGone.when {c : Relay → Bool} (ha : a.KeepsGone) : (Act.when c a).KeepsGone :=
  fun gone => (ha gone).when c

theorem isAside_modify {f : Relay → Relay} (h : ∀ r, (f r).readerSide = r.readerSide) :
    (modify f).IsAside :=
  ⟨h, fun _ => rfl⟩

theorem isAside_emit {outputs : List Output} (h : Output.news outputs = []) :
    (emit outputs).IsAside :=
  ⟨fun _ => rfl, fun _ => h⟩

theorem IsAside.andThen (ha : a.IsAside) (hb : b.IsAside) : (a.andThen b).IsAside where
  frame r := (hb.frame _).trans (ha.frame r)
  silent r := by
    show Output.news ((a r).2 ++ (b (a r).1).2) = []
    rw [Output.news_append, ha.silent, hb.silent]
    rfl

theorem isAside_reading {f : Relay → Act} (h : ∀ r, (f r).IsAside) : (reading f).IsAside :=
  ⟨fun r => (h r).frame r, fun r => (h r).silent r⟩

theorem IsAside.when {c : Relay → Bool} (ha : a.IsAside) : (Act.when c a).IsAside := by
  refine ⟨fun r => ?_, fun r => ?_⟩
  · rw [Act.when]
    split
    · exact ha.frame r
    · rfl
  · rw [Act.when]
    split
    · exact ha.silent r
    · rfl

theorem isBackstage_skip : skip.IsBackstage :=
  ⟨⟨fun _ => rfl, fun _ => rfl⟩, fun _ => keeps_skip⟩

theorem isBackstage_modify {f : Relay → Relay} (h : ∀ r, (f r).outputSide = r.outputSide) :
    (modify f).IsBackstage where
  toIsAside := isAside_modify fun r => (Prod.mk.inj (h r)).1
  gone := keepsGone_modify fun r => Prod.mk.inj (Prod.mk.inj (h r)).2

theorem isBackstage_emit {outputs : List Output} (h : Output.news outputs = []) :
    (emit outputs).IsBackstage :=
  ⟨isAside_emit h, keepsGone_emit⟩

theorem IsBackstage.andThen (ha : a.IsBackstage) (hb : b.IsBackstage) :
    (a.andThen b).IsBackstage :=
  ⟨ha.toIsAside.andThen hb.toIsAside, ha.gone.andThen hb.gone⟩

theorem isBackstage_reading {f : Relay → Act} (h : ∀ r, (f r).IsBackstage) :
    (reading f).IsBackstage :=
  ⟨isAside_reading fun r => (h r).toIsAside, keepsGone_reading fun r => (h r).gone⟩

theorem IsBackstage.when {c : Relay → Bool} (ha : a.IsBackstage) :
    (Act.when c a).IsBackstage :=
  ⟨ha.toIsAside.when, ha.gone.when⟩

end Act

namespace Relay

open Act

/-! ## The rules that have no part in it -/

theorem outputSide_markClosed (r : Relay) : (markClosed r).outputSide = r.outputSide := by
  obtain ⟨stage, hstage⟩ := exists_markClosed r
  rw [hstage]
  rfl

theorem gone_markClosed (r : Relay) :
    (markClosed r).stream.destroyed = r.stream.destroyed
      ∧ (markClosed r).child.outputDestroyed = r.child.outputDestroyed :=
  Prod.mk.inj (Prod.mk.inj (outputSide_markClosed r)).2

theorem isBackstage_sendSignal (s : Signal) : (sendSignal s).IsBackstage :=
  IsBackstage.when <| IsBackstage.andThen (isBackstage_modify fun _ => rfl) (isBackstage_emit rfl)

theorem isBackstage_reapLater (s : Signal) : (reapLater s).IsBackstage :=
  IsBackstage.when (isBackstage_modify fun _ => rfl)

theorem readerSide_markDestroyed (error : Option Refusal) (r : Relay) :
    (markDestroyed error r).readerSide = r.readerSide := by
  obtain ⟨stage, hstage⟩ := exists_markClosed r
  rw [markDestroyed, hstage]
  rfl

theorem isAside_dropPipes : dropPipes.IsAside :=
  IsAside.andThen (isAside_modify fun _ => rfl) (isAside_emit rfl)

theorem isAside_destroy (error : Option Refusal) : (destroy error).IsAside := by
  refine IsAside.when (isAside_reading fun r => ?_)
  refine IsAside.andThen (isAside_modify (readerSide_markDestroyed error)) (IsAside.andThen ?_ ?_)
  · split
    · exact isBackstage_skip.toIsAside
    · exact (isBackstage_sendSignal _).toIsAside
  · refine isAside_dropPipes.andThen
      ((isBackstage_reapLater _).toIsAside.andThen (isAside_emit ?_))
    cases error with
    | none => rfl
    | some why => rfl

theorem keeps_destroyed_sendSignal (s : Signal) :
    (sendSignal s).Keeps (fun r => r.stream.destroyed = true) fun _ => True := by
  refine Keeps.when (Keeps.andThen (keeps_modify ?_) (keeps_emit fun _ _ => trivial)) _
  exact fun _ hr => hr

theorem dropPipes_agrees : dropPipes.Ensures (fun r => r.stream.destroyed = true)
    (fun r => r.PipesAgree ∧ r.stream.destroyed = true) fun _ => True := by
  refine Ensures.andThen (ensures_modify ?_) (keeps_emit fun _ _ => trivial)
  exact fun _ hr => ⟨hr.symm, hr⟩

/-- A stream that is given up is gone, and the output with it. -/
theorem destroy_destroyed (error : Option Refusal) : (destroy error).Ensures PipesAgree
    (fun r => r.PipesAgree ∧ r.stream.destroyed = true) fun _ => True := by
  refine ensures_when (ensures_reading fun r _ => ?_) fun r hr hopen => ?_
  · have hmark : (Act.modify (markDestroyed error)).Ensures
        (fun r => r.PipesAgree ∧ (!r.stream.destroyed) = true)
        (fun r => r.stream.destroyed = true) fun _ => True := ensures_modify fun _ _ => rfl
    refine hmark.andThen (Ensures.andThen (Q := fun r => r.stream.destroyed = true) ?_ ?_)
    · split
      · exact keeps_skip
      · exact keeps_destroyed_sendSignal _
    · refine dropPipes_agrees.andThen (Keeps.andThen ?_ (keeps_emit fun _ _ => trivial))
      refine Keeps.when (keeps_modify ?_) _
      exact fun _ hr => hr
  · exact ⟨hr, (Bool.not_eq_eq_eq_not).mp hopen⟩

theorem isBackstage_destroy (error : Option Refusal) : (destroy error).IsBackstage where
  toIsAside := isAside_destroy error
  gone _ := (destroy_destroyed error).of_imp (fun _ hr => hr.1) fun _ hr => ⟨hr.1, fun _ => hr.2⟩

theorem isBackstage_endInput : endInput.IsBackstage :=
  IsBackstage.when <| IsBackstage.andThen (isBackstage_modify fun _ => rfl) (isBackstage_emit rfl)

theorem isBackstage_destroyIfThrough : destroyIfThrough.IsBackstage :=
  IsBackstage.when (isBackstage_destroy none)

theorem isBackstage_finish : finish.IsBackstage :=
  IsBackstage.when <| isBackstage_endInput.andThen <|
    IsBackstage.andThen (isBackstage_modify fun _ => rfl) isBackstage_destroyIfThrough

theorem isBackstage_report {p : Parcel} {n : Notice} (h : (Output.notice n).news? = none) :
    (report p n).IsBackstage := by
  refine isBackstage_emit (Output.news_eq_nil fun o ho => ?_)
  split at ho
  · exact List.mem_singleton.mp ho ▸ h
  · exact nomatch ho

theorem isBackstage_abandon (why : Refusal) : (abandon why).IsBackstage := by
  refine isBackstage_reading fun r => IsBackstage.andThen (isBackstage_modify fun _ => rfl)
    (isBackstage_emit (Output.news_eq_nil ?_))
  exact List.forall_mem_map.mpr fun _ _ => rfl

theorem isBackstage_failWrite (p : Parcel) (error : Value) : (failWrite p error).IsBackstage :=
  isBackstage_reading fun _ => (isBackstage_report rfl).andThen <|
    (isBackstage_destroy _).andThen (isBackstage_abandon _)

theorem isBackstage_handOver (p : Parcel) (later : List Parcel) :
    (handOver p later).IsBackstage :=
  IsBackstage.andThen (isBackstage_modify fun _ => rfl) (isBackstage_emit rfl)

theorem isBackstage_finishIfDue : finishIfDue.IsBackstage := isBackstage_finish.when

theorem isBackstage_passOn (texts : List Parcel) : (passOn texts).IsBackstage := by
  induction texts with
  | nil => exact isBackstage_finishIfDue
  | cons p later ih =>
      refine (isBackstage_handOver p later).andThen (isBackstage_reading fun r => ?_)
      split
      · exact isBackstage_skip
      · split
        · exact (isBackstage_report rfl).andThen ih
        · exact isBackstage_failWrite p _

theorem isBackstage_passWaiting : passWaiting.IsBackstage :=
  isBackstage_reading fun _ => isBackstage_passOn _

theorem isBackstage_submit (p : Parcel) : (submit p).IsBackstage :=
  IsBackstage.andThen (isBackstage_modify fun _ => rfl) isBackstage_passWaiting.when

theorem isBackstage_writeTaken : writeTaken.IsBackstage := by
  refine isBackstage_reading fun r => ?_
  split
  · exact isBackstage_skip
  · refine IsBackstage.andThen (isBackstage_modify fun _ => rfl) ?_
    split
    · refine (isBackstage_report rfl).andThen (isBackstage_reading fun r => ?_)
      split
      · exact isBackstage_abandon _
      · exact isBackstage_passWaiting
    · exact isBackstage_failWrite _ _

theorem isBackstage_write (text : String) : (write text).IsBackstage := by
  refine isBackstage_reading fun r => ?_
  split
  · exact IsBackstage.andThen (isBackstage_emit rfl) (isBackstage_destroy _)
  · split
    · exact isBackstage_emit rfl
    · exact isBackstage_submit _

theorem isBackstage_endWrites : endWrites.IsBackstage :=
  IsBackstage.when (IsBackstage.andThen (isBackstage_modify fun _ => rfl) isBackstage_finishIfDue)

theorem isBackstage_endWritesWith (text : String) : (endWritesWith text).IsBackstage := by
  refine isBackstage_reading fun r => ?_
  split
  · exact isBackstage_destroy _
  · split
    · exact isBackstage_skip
    · exact IsBackstage.andThen (isBackstage_modify fun _ => rfl) (isBackstage_submit _)

theorem isBackstage_wait :
    (reading fun r => match r.exit with
      | some e => emit [.notice (.waited e)]
      | none => Act.modify fun r => { r with waiting := r.waiting + 1 }).IsBackstage := by
  refine isBackstage_reading fun r => ?_
  split
  · exact isBackstage_emit rfl
  · exact isBackstage_modify fun _ => rfl

theorem isBackstage_close : close.IsBackstage := by
  refine IsBackstage.andThen (isBackstage_modify outputSide_markClosed)
    (isBackstage_endInput.andThen (isBackstage_reading fun r => ?_))
  split
  · exact IsBackstage.andThen (isBackstage_destroy none) (isBackstage_emit rfl)
  · exact isBackstage_modify fun _ => rfl

theorem isBackstage_answerWaiters (e : Exit) : (answerWaiters e).IsBackstage := by
  have hanswers : ∀ (n : Nat) (notice : Notice), (Output.notice notice).news? = none →
      (emit (List.replicate n (.notice notice))).IsBackstage := by
    intro n notice hnotice
    refine isBackstage_emit (Output.news_eq_nil fun o ho => ?_)
    obtain rfl := List.eq_of_mem_replicate ho
    exact hnotice
  refine isBackstage_reading fun r => IsBackstage.andThen (isBackstage_modify fun _ => rfl) ?_
  refine IsBackstage.andThen (hanswers _ (.waited e) rfl)
    (IsBackstage.andThen ?_ (hanswers _ (.closed e) rfl))
  split
  · exact isBackstage_skip
  · exact isBackstage_destroy none

theorem isBackstage_childExit (e : Exit) : (childExit e).IsBackstage := by
  refine IsBackstage.when <| IsBackstage.andThen (isBackstage_modify fun _ => rfl) <|
    IsBackstage.andThen (isBackstage_reading fun _ => isBackstage_emit rfl) <|
    IsBackstage.andThen (isBackstage_reading fun r => ?_) (isBackstage_answerWaiters e)
  split
  · exact isBackstage_destroy _
  · exact isBackstage_skip

theorem isBackstage_fire (purpose : Purpose) : (fire purpose).IsBackstage := by
  cases purpose with
  | closeTerm =>
      rw [fire]
      exact isBackstage_reading fun _ => IsBackstage.andThen (isBackstage_emit rfl) <|
        (isBackstage_sendSignal _).andThen (isBackstage_modify fun _ => rfl)
  | closeKill =>
      rw [fire]
      exact isBackstage_reading fun _ => IsBackstage.andThen (isBackstage_emit rfl) <|
        (isBackstage_sendSignal _).andThen (isBackstage_modify fun _ => rfl)
  | drop signal => exact isBackstage_sendSignal signal

theorem isBackstage_fireNext : fireNext.IsBackstage := by
  refine isBackstage_reading fun r => ?_
  split
  · exact isBackstage_skip
  · exact IsBackstage.andThen (isBackstage_modify fun _ => rfl) (isBackstage_fire _)

end Relay

/-- Does a feed take note of the event? -/
def RelayEvent.isFed : RelayEvent → Bool
  | .read => true
  | .pause => true
  | .readNext => true
  | .output _ => true
  | .outputEnd => true
  | _ => false

namespace Relay

open Act

theorem isBackstage_act {e : RelayEvent} (h : e.isFed = false) : (act e).IsBackstage := by
  cases e with
  | read => exact nomatch h
  | pause => exact nomatch h
  | readNext => exact nomatch h
  | output chunk => exact nomatch h
  | outputEnd => exact nomatch h
  | spawned => exact IsBackstage.when (isBackstage_modify fun _ => rfl)
  | childError error => exact IsBackstage.when (isBackstage_destroy _)
  | outputError error => exact IsBackstage.when (isBackstage_reading fun _ => isBackstage_destroy _)
  | inputError error => exact IsBackstage.when (isBackstage_reading fun _ => isBackstage_destroy _)
  | exit x => exact isBackstage_childExit x
  | mark marked => exact isBackstage_modify fun _ => rfl
  | failWrites error => exact isBackstage_modify fun _ => rfl
  | stall stalled => exact isBackstage_modify fun _ => rfl
  | taken => exact isBackstage_writeTaken
  | write text => exact isBackstage_write text
  | endWrites text =>
      cases text with
      | none => exact isBackstage_endWrites
      | some text => exact isBackstage_endWritesWith text
  | kill signal => exact isBackstage_sendSignal signal
  | wait => exact isBackstage_wait
  | close => exact isBackstage_close
  | destroy message => exact isBackstage_destroy _
  | timer => exact isBackstage_fireNext
  | pass ms => exact isBackstage_modify fun _ => rfl
  | programEnd => exact IsBackstage.when (isBackstage_sendSignal _)

/-! ## The rules that have -/

theorem news_map_data (chunks : List String) :
    Output.news (chunks.map fun chunk => .notice (.data chunk)) = chunks.map .data := by
  rw [Output.news, List.filterMap_map, ← List.filterMap_eq_map]
  rfl

/-- Who has read everything is told of the end once. -/
theorem announceEnd_follows {f : Feed} {r : Relay} (h : r.Follows f)
    (hopen : r.stream.destroyed = false) :
    (announceEnd r).1.Follows { f with endHeard := f.endHeard || f.ended }
      ∧ Output.news (announceEnd r).2 = if f.ended && !f.endHeard then [.ended] else [] := by
  have hcondition : (r.child.outputEnded && !r.stream.endShown && !r.stream.destroyed)
      = (f.ended && !f.endHeard) := by
    rw [h.outputEnded, h.endShown, hopen, Bool.not_false, Bool.and_true]
  rw [announceEnd, Act.when, hcondition]
  by_cases hnow : (f.ended && !f.endHeard) = true
  · rw [if_pos hnow, if_pos hnow]
    have hthrough := isBackstage_destroyIfThrough
    have hended : f.ended = true := (Bool.and_eq_true_iff.mp hnow).1
    constructor
    · refine Follows.of_readerSide (r := { r with stream := { r.stream with endShown := true } })
        ?_ (hthrough.frame _)
      refine ⟨h.reading, h.queue, ?_, h.outputEnded, h.received⟩
      show true = (f.endHeard || f.ended)
      rw [hended, Bool.or_true]
    · show Output.news ([] ++ ([.notice .ended] ++ (destroyIfThrough _).2)) = [.ended]
      rw [List.nil_append, Output.news_append, hthrough.silent]
      rfl
  · rw [if_neg hnow, if_neg hnow]
    refine ⟨⟨h.reading, h.queue, ?_, h.outputEnded, h.received⟩, rfl⟩
    show r.stream.endShown = (f.endHeard || f.ended)
    rw [h.endShown]
    cases hheard : f.endHeard with
    | true => rw [Bool.true_or]
    | false =>
        rw [hheard, Bool.not_false, Bool.and_true] at hnow
        rw [Bool.eq_false_iff.mpr hnow, Bool.or_false]

/-- A reader is told of the end once everything before it has been delivered. -/
theorem showEnd_follows {f : Feed} {r : Relay} (h : r.Follows f)
    (hopen : r.stream.destroyed = false) :
    (showEnd r).1.Follows { f with endHeard := f.endHeard || (f.reading && f.ended) }
      ∧ Output.news (showEnd r).2
        = if f.reading && f.ended && !f.endHeard then [.ended] else [] := by
  rw [showEnd, Act.when, h.reading]
  by_cases hreading : f.reading = true
  · have hboth : (f.reading && f.ended) = f.ended := by rw [hreading, Bool.true_and]
    rw [if_pos hreading, hboth]
    exact announceEnd_follows h hopen
  · have hboth : (f.reading && f.ended) = false := by
      rw [Bool.eq_false_iff.mpr hreading, Bool.false_and]
    rw [if_neg hreading, hboth, Bool.or_false]
    exact ⟨h, rfl⟩

/-- The stream with a reader to whom everything that waited has been delivered. -/
def caughtUp (r : Relay) : Relay :=
  { r with stream := { r.stream with reading := true, queue := [] } }

theorem beginReading_of_open {r : Relay} (hopen : r.stream.destroyed = false) :
    beginReading r = ((showEnd r.caughtUp).1,
      r.stream.queue.map (fun chunk => .notice (.data chunk)) ++ (showEnd r.caughtUp).2) := by
  rw [beginReading, Act.when, hopen]
  rfl

theorem beginReading_follows {f : Feed} {r : Relay} (hsound : f.Sound) (h : r.Follows f)
    (hopen : r.stream.destroyed = false) :
    (beginReading r).1.Follows (f.next .read)
      ∧ f.told ++ Output.news (beginReading r).2 = (f.next .read).told := by
  have hcaughtUp : r.caughtUp.Follows
      { f with reading := true, heard := f.chunks, waiting := [] } := by
    refine ⟨rfl, rfl, h.endShown, h.outputEnded, ?_⟩
    rw [Feed.chunks, List.append_nil]
    exact h.received
  obtain ⟨hfollows, hnews⟩ := showEnd_follows hcaughtUp hopen
  rw [beginReading_of_open hopen]
  refine ⟨hfollows, ?_⟩
  rw [Output.news_append, news_map_data, hnews, h.queue]
  -- Nothing waits for a reader who knows of the end already.
  cases hheard : f.endHeard with
  | true => simp [Feed.told, Feed.next, Feed.chunks, hheard, (hsound.through hheard).2]
  | false => simp [Feed.told, Feed.next, Feed.chunks, hheard]

theorem pauseReading_follows {f : Feed} {r : Relay} (h : r.Follows f) :
    (pauseReading r).1.Follows (f.next .pause)
      ∧ f.told ++ Output.news (pauseReading r).2 = (f.next .pause).told :=
  ⟨⟨rfl, h.queue, h.endShown, h.outputEnded, h.received⟩, List.append_nil _⟩

/-- The stream without the first of the chunks that wait. -/
def withoutNext (r : Relay) : Relay :=
  { r with stream := { r.stream with queue := r.stream.queue.drop 1 } }

theorem readNext_of_open {r : Relay} (hopen : r.stream.destroyed = false) :
    readNext r = ((Act.when (·.stream.queue.isEmpty) announceEnd r.withoutNext).1,
      (r.stream.queue.take 1).map (fun chunk => .notice (.data chunk))
        ++ (Act.when (·.stream.queue.isEmpty) announceEnd r.withoutNext).2) := by
  rw [readNext, Act.when, hopen]
  rfl

theorem readNext_follows {f : Feed} {r : Relay} (hsound : f.Sound) (h : r.Follows f)
    (hopen : r.stream.destroyed = false) :
    (readNext r).1.Follows (f.next .readNext)
      ∧ f.told ++ Output.news (readNext r).2 = (f.next .readNext).told := by
  have hnext : r.withoutNext.Follows
      { f with heard := f.heard ++ f.waiting.take 1, waiting := f.waiting.drop 1 } := by
    refine ⟨h.reading, congrArg (List.drop 1) h.queue, h.endShown, h.outputEnded, ?_⟩
    rw [Feed.chunks, List.append_assoc, List.take_append_drop]
    exact h.received
  have hqueue : r.withoutNext.stream.queue = f.waiting.drop 1 := hnext.queue
  rw [readNext_of_open hopen, Act.when, hqueue, h.queue]
  by_cases hlast : (f.waiting.drop 1).isEmpty = true
  · rw [if_pos hlast]
    obtain ⟨hfollows, hnews⟩ := announceEnd_follows hnext hopen
    constructor
    · rw [Feed.next, hlast, Bool.true_and]
      exact hfollows
    · rw [Output.news_append, news_map_data, hnews]
      cases hheard : f.endHeard with
      | true => simp [Feed.told, Feed.next, hheard, (hsound.through hheard).2]
      | false => simp [Feed.told, Feed.next, hheard, List.isEmpty_iff.mp hlast]
  · rw [if_neg hlast]
    constructor
    · rw [Feed.next, Bool.eq_false_iff.mpr hlast, Bool.false_and, Bool.or_false]
      exact hnext
    · -- As long as more waits the reader has not been told of the end.
      have hheard : f.endHeard = false := by
        refine Bool.eq_false_iff.mpr fun hheard => hlast ?_
        rw [(hsound.through hheard).2]
        rfl
      have hstill : (f.next .readNext).endHeard = false := by
        show (f.endHeard || ((f.waiting.drop 1).isEmpty && f.ended)) = false
        rw [hheard, Bool.eq_false_iff.mpr hlast, Bool.false_and, Bool.or_false]
      rw [List.append_nil, news_map_data, Feed.told, Feed.told, hheard, hstill]
      simp [Feed.next]

theorem accept_of_reading {r : Relay} (chunk : String) (h : r.stream.reading = true) :
    accept chunk r = ({ r with received := r.received + chunk.utf8ByteSize },
      if chunk = "" then [] else [.notice (.data chunk)]) := by
  rw [accept]
  show (if r.stream.reading then _ else _ : Act) r = _
  rw [if_pos h]
  rfl

/-- The relay with one chunk more that waits to be read. -/
def withWaiting (chunk : String) (r : Relay) : Relay :=
  { r with
    received := r.received + chunk.utf8ByteSize
    stream := { r.stream with
      queue := if chunk = "" then r.stream.queue else r.stream.queue ++ [chunk] } }

theorem accept_of_not_reading {r : Relay} (chunk : String) (h : r.stream.reading = false) :
    (accept chunk r).1 = withWaiting chunk r ∧ Output.news (accept chunk r).2 = [] := by
  have haccept : accept chunk r = (Act.modify (withWaiting chunk)).andThen
      (Act.when (fun r => Stream.highWater ≤ r.stream.queued) (emit [.call .pauseOutput])) r := by
    rw [accept]
    show (if r.stream.reading then _ else _ : Act) r = _
    rw [if_neg (Bool.eq_false_iff.mp h)]
    rfl
  rw [haccept]
  show (Act.when _ _ (withWaiting chunk r)).1 = _
    ∧ Output.news ([] ++ (Act.when _ _ (withWaiting chunk r)).2) = _
  rw [Act.when]
  split
  · exact ⟨rfl, rfl⟩
  · exact ⟨rfl, rfl⟩

/-- A chunk goes to the reader, or to the end of the queue. -/
theorem accept_follows {f : Feed} {r : Relay} (chunk : String) (hsound : f.Sound)
    (h : r.Follows f) (hended : f.ended = false) :
    (accept chunk r).1.Follows (f.next (.output chunk))
      ∧ f.told ++ Output.news (accept chunk r).2 = (f.next (.output chunk)).told := by
  have hreceived : r.received + chunk.utf8ByteSize = 0
      ↔ (f.next (.output chunk)).chunks = [] := by
    have hnext := Feed.chunks_next (f := f) (e := .output chunk) fun hno => by
      rw [hended] at hno
      exact nomatch hno
    rw [hnext, Nat.add_eq_zero_iff, h.received, String.utf8ByteSize_eq_zero_iff,
      List.append_eq_nil_iff]
    by_cases hempty : chunk = ""
    · simp [hempty, RelayEvent.chunk?]
    · simp [hempty, RelayEvent.chunk?]
  have hheard : f.endHeard = false := by
    refine Bool.eq_false_iff.mpr fun hheard => ?_
    rw [(hsound.through hheard).1] at hended
    exact nomatch hended
  by_cases hreading : f.reading = true
  · rw [accept_of_reading chunk (h.reading.trans hreading)]
    by_cases hempty : chunk = ""
    · have hnext : f.next (.output chunk) = f := by simp [Feed.next, hempty]
      rw [hnext] at hreceived ⊢
      refine ⟨⟨h.reading, h.queue, h.endShown, h.outputEnded, hreceived⟩, ?_⟩
      simp [hempty, Output.news]
    · have hwaiting : f.waiting = [] := hsound.caughtUp hreading
      have hnext : f.next (.output chunk)
          = { f with heard := f.heard ++ [chunk], waiting := [] } := by
        simp [Feed.next, Feed.chunks, hempty, hended, hreading, hwaiting]
      rw [hnext] at hreceived ⊢
      refine ⟨⟨h.reading, h.queue.trans hwaiting, h.endShown, h.outputEnded, hreceived⟩, ?_⟩
      simp [hempty, hheard, Feed.told, Output.news, Output.news?]
  · obtain ⟨hafter, hnews⟩ := accept_of_not_reading chunk
      (h.reading.trans (Bool.eq_false_iff.mpr hreading))
    rw [hafter, hnews]
    by_cases hempty : chunk = ""
    · have hnext : f.next (.output chunk) = f := by simp [Feed.next, hempty]
      rw [hnext] at hreceived ⊢
      refine ⟨⟨h.reading, ?_, h.endShown, h.outputEnded, hreceived⟩, List.append_nil _⟩
      exact (if_pos hempty).trans h.queue
    · have hnext : f.next (.output chunk) = { f with waiting := f.waiting ++ [chunk] } := by
        simp [Feed.next, hempty, hended, Bool.eq_false_iff.mpr hreading]
      rw [hnext] at hreceived ⊢
      refine ⟨⟨h.reading, ?_, h.endShown, h.outputEnded, hreceived⟩, List.append_nil _⟩
      show (if chunk = "" then r.stream.queue else r.stream.queue ++ [chunk])
        = f.waiting ++ [chunk]
      rw [if_neg hempty, h.queue]

theorem readerSide_withOutputEnded (r : Relay) : (withOutputEnded r).readerSide
    = (r.stream.reading, r.stream.queue, r.stream.endShown, true, r.received) :=
  (Prod.mk.inj (outputSide_markClosed _)).1

theorem Follows.withOutputEnded {f : Feed} {r : Relay} (h : r.Follows f) :
    (withOutputEnded r).Follows { f with ended := true } := by
  have hended : ({ r with child := { r.child with outputEnded := true } } : Relay).Follows
      { f with ended := true } := ⟨h.reading, h.queue, h.endShown, rfl, h.received⟩
  exact hended.of_readerSide (readerSide_withOutputEnded r)

theorem endOutput_eq (r : Relay) : endOutput r
    = ((showEnd (withOutputEnded r)).1, (showEnd (withOutputEnded r)).2) := rfl

/-- The end goes to the reader, or waits behind the queue. -/
theorem endOutput_follows {f : Feed} {r : Relay} (hsound : f.Sound) (h : r.Follows f)
    (hended : f.ended = false) (hopen : r.stream.destroyed = false) :
    (endOutput r).1.Follows (f.next .outputEnd)
      ∧ f.told ++ Output.news (endOutput r).2 = (f.next .outputEnd).told := by
  have hheard : f.endHeard = false := by
    refine Bool.eq_false_iff.mpr fun hheard => ?_
    rw [(hsound.through hheard).1] at hended
    exact nomatch hended
  obtain ⟨hfollows, hnews⟩ := showEnd_follows h.withOutputEnded
    ((gone_markClosed _).1.trans hopen)
  rw [endOutput_eq]
  constructor
  · rw [Bool.and_true] at hfollows
    exact hfollows
  · rw [hnews]
    cases hreading : f.reading <;> simp [Feed.told, Feed.next, hheard, hreading]

theorem outputOpen_eq {f : Feed} {r : Relay} (h : r.Follows f) (hpipes : r.PipesAgree)
    (hopen : r.stream.destroyed = false) : outputOpen r = !f.ended := by
  rw [outputOpen, h.outputEnded, hpipes, hopen, Bool.not_false, Bool.and_true]

/-- **One event at a time.** As long as the stream is there, an event makes the relay tell
    the reader what the feed has more to say. -/
theorem act_follows (e : RelayEvent) {f : Feed} {r : Relay} (hsound : f.Sound) (h : r.Follows f)
    (hpipes : r.PipesAgree) (hopen : r.stream.destroyed = false) :
    (act e r).1.Follows (f.next e) ∧ f.told ++ Output.news (act e r).2 = (f.next e).told := by
  have hout : outputOpen r = !f.ended := outputOpen_eq h hpipes hopen
  by_cases hfed : e.isFed = false
  · have hback := isBackstage_act hfed
    have hnext : f.next e = f := by
      cases e with
      | read => exact nomatch hfed
      | pause => exact nomatch hfed
      | readNext => exact nomatch hfed
      | output chunk => exact nomatch hfed
      | outputEnd => exact nomatch hfed
      | _ => rfl
    rw [hnext, hback.silent, List.append_nil]
    exact ⟨h.of_readerSide (hback.frame r), rfl⟩
  · cases e with
    | read => exact beginReading_follows hsound h hopen
    | pause => exact pauseReading_follows h
    | readNext => exact readNext_follows hsound h hopen
    | output chunk =>
        rw [act, Act.when, hout]
        cases hended : f.ended with
        | true =>
            have hnext : f.next (.output chunk) = f := by
              rw [Feed.next, hended, Bool.true_or]
              rfl
            rw [hnext]
            exact ⟨h, List.append_nil _⟩
        | false => exact accept_follows chunk hsound h hended
    | outputEnd =>
        rw [act, Act.when, hout]
        cases hended : f.ended with
        | true =>
            -- The end is told once: to a reader who is there, or to the next one.
            have hheard : (f.endHeard || f.reading) = f.endHeard := by
              cases hreading : f.reading with
              | true => rw [hsound.informed hreading hended, Bool.true_or]
              | false => exact Bool.or_false _
            have hnext : f.next .outputEnd = f := by
              rw [Feed.next, hheard, ← hended]
            rw [hnext]
            exact ⟨h, List.append_nil _⟩
        | false => exact endOutput_follows hsound h hended hopen
    | _ => exact absurd rfl hfed

/-! ## Destroyed streams -/

theorem keepsGone_announceEnd : announceEnd.KeepsGone :=
  KeepsGone.when <| KeepsGone.andThen (keepsGone_modify fun _ => ⟨rfl, rfl⟩) <|
    keepsGone_emit.andThen isBackstage_destroyIfThrough.gone

theorem keepsGone_showEnd : showEnd.KeepsGone := keepsGone_announceEnd.when

theorem keepsGone_beginReading : beginReading.KeepsGone := by
  refine KeepsGone.when (KeepsGone.andThen (keepsGone_modify fun _ => ⟨rfl, rfl⟩) ?_)
  exact KeepsGone.andThen (fun _ _ hr => ⟨hr, fun _ _ => trivial⟩) keepsGone_showEnd

theorem keepsGone_readNext : readNext.KeepsGone :=
  KeepsGone.when <| KeepsGone.andThen (keepsGone_reading fun _ => keepsGone_emit) <|
    KeepsGone.andThen (keepsGone_modify fun _ => ⟨rfl, rfl⟩) keepsGone_announceEnd.when

theorem keepsGone_accept (chunk : String) : (accept chunk).KeepsGone := by
  refine keepsGone_reading fun r => ?_
  show (if r.stream.reading then _ else _ : Act).KeepsGone
  split
  · exact KeepsGone.andThen (keepsGone_modify fun _ => ⟨rfl, rfl⟩) keepsGone_emit
  · exact KeepsGone.andThen (keepsGone_modify fun _ => ⟨rfl, rfl⟩) keepsGone_emit.when

theorem keepsGone_endOutput : endOutput.KeepsGone :=
  KeepsGone.andThen (keepsGone_modify fun _ => gone_markClosed _) keepsGone_showEnd

theorem keepsGone_act (e : RelayEvent) : (act e).KeepsGone := by
  by_cases hfed : e.isFed = false
  · exact (isBackstage_act hfed).gone
  · cases e with
    | read => exact keepsGone_beginReading
    | pause => exact keepsGone_modify fun _ => ⟨rfl, rfl⟩
    | readNext => exact keepsGone_readNext
    | output chunk => exact (keepsGone_accept chunk).when
    | outputEnd => exact keepsGone_endOutput.when
    | _ => exact absurd rfl hfed

theorem pipesAgree_act (e : RelayEvent) {r : Relay} (hr : r.PipesAgree) :
    (act e r).1.PipesAgree :=
  (keepsGone_act e false r ⟨hr, fun hno => nomatch hno⟩).1.1

theorem destroyed_act (e : RelayEvent) {r : Relay} (hr : r.PipesAgree)
    (hdestroyed : r.stream.destroyed = true) : (act e r).1.stream.destroyed = true :=
  (keepsGone_act e true r ⟨hr, fun _ => hdestroyed⟩).1.2 rfl

/-- A reader of a destroyed stream is told nothing. -/
theorem news_of_destroyed (e : RelayEvent) {r : Relay} (hpipes : r.PipesAgree)
    (hdestroyed : r.stream.destroyed = true) : Output.news (act e r).2 = [] := by
  have hout : outputOpen r = false := by
    rw [outputOpen, hpipes, hdestroyed, Bool.not_true, Bool.and_false]
  by_cases hfed : e.isFed = false
  · exact (isBackstage_act hfed).silent r
  · cases e with
    | read =>
        rw [act, beginReading, Act.when, hdestroyed]
        rfl
    | pause => rfl
    | readNext =>
        rw [act, readNext, Act.when, hdestroyed]
        rfl
    | output chunk =>
        rw [act, Act.when, hout]
        rfl
    | outputEnd =>
        rw [act, Act.when, hout]
        rfl
    | _ => exact absurd rfl hfed

theorem run_of_destroyed {r : Relay} (hpipes : r.PipesAgree)
    (hdestroyed : r.stream.destroyed = true) (events : List RelayEvent) :
    Output.news (r.run events).2 = [] := by
  induction events generalizing r with
  | nil => rfl
  | cons e events ih =>
      rw [run, Output.news_append, step, Output.news_settle,
        news_of_destroyed e hpipes hdestroyed, List.nil_append]
      exact ih (pipesAgree_act e hpipes) (destroyed_act e hpipes hdestroyed)

end Relay

end SshDial

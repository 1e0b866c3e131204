import SshDial.Relay.Step

/-! # Acts — what an act ensures, part by part

    The rules of a relay are put together from a few kinds of acts.
    `a.Ensures P Q O` says that the act `a` leads from states with `P` to states with `Q`
    and puts out only what has `O`; there is one lemma for each way of putting acts
    together, so what a rule ensures is shown along its definition.  `Relay.step_ensures`
    and `Relay.run_keeps` carry what every act keeps over to whole runs. -/

namespace SshDial

namespace Act

/-- From a state with `P` the act leads to one with `Q`, and all it puts out has `O`. -/
def Ensures (a : Act) (P Q : Relay → Prop) (O : Output → Prop) : Prop :=
  ∀ r, P r → Q (a r).1 ∧ ∀ o ∈ (a r).2, O o

/-- The act keeps `P`, and all it puts out has `O`. -/
def Keeps (a : Act) (P : Relay → Prop) (O : Output → Prop) : Prop := a.Ensures P P O

variable {a b : Act} {P Q R : Relay → Prop} {O : Output → Prop}

theorem ensures_skip (h : ∀ r, P r → Q r) : skip.Ensures P Q O :=
  fun r hr => ⟨h r hr, fun _ ho => (nomatch ho)⟩

theorem ensures_modify {f : Relay → Relay} (h : ∀ r, P r → Q (f r)) :
    (modify f).Ensures P Q O :=
  fun r hr => ⟨h r hr, fun _ ho => (nomatch ho)⟩

theorem ensures_emit {outputs : List Output} (h : ∀ r, P r → Q r) (hO : ∀ o ∈ outputs, O o) :
    (emit outputs).Ensures P Q O :=
  fun r hr => ⟨h r hr, hO⟩

theorem Ensures.andThen (ha : a.Ensures P Q O) (hb : b.Ensures Q R O) :
    (a.andThen b).Ensures P R O := by
  intro r hr
  obtain ⟨hQ, hfirst⟩ := ha r hr
  obtain ⟨hR, hsecond⟩ := hb _ hQ
  refine ⟨hR, fun o ho => ?_⟩
  rcases List.mem_append.mp ho with ho | ho
  · exact hfirst o ho
  · exact hsecond o ho

theorem ensures_reading {f : Relay → Act} (h : ∀ r, P r → (f r).Ensures P Q O) :
    (reading f).Ensures P Q O :=
  fun r hr => h r hr r hr

/-- An act made only in some states; in the others nothing happens. -/
theorem ensures_when {c : Relay → Bool} (h : a.Ensures (fun r => P r ∧ c r = true) Q O)
    (helse : ∀ r, P r → c r = false → Q r) : (when c a).Ensures P Q O := by
  intro r hr
  rw [when]
  by_cases hc : c r = true
  · rw [if_pos hc]
    exact h r ⟨hr, hc⟩
  · rw [if_neg hc]
    exact ⟨helse r hr (Bool.eq_false_iff.mpr hc), fun _ ho => (nomatch ho)⟩

theorem Ensures.of_imp {P' Q' : Relay → Prop} (h : a.Ensures P Q O) (hP : ∀ r, P' r → P r)
    (hQ : ∀ r, Q r → Q' r) : a.Ensures P' Q' O :=
  fun r hr => ⟨hQ _ (h r (hP r hr)).1, (h r (hP r hr)).2⟩

theorem keeps_skip : skip.Keeps P O := ensures_skip fun _ hr => hr

theorem keeps_modify {f : Relay → Relay} (h : ∀ r, P r → P (f r)) : (modify f).Keeps P O :=
  ensures_modify h

theorem keeps_emit {outputs : List Output} (hO : ∀ o ∈ outputs, O o) :
    (emit outputs).Keeps P O :=
  ensures_emit (fun _ hr => hr) hO

theorem Keeps.andThen (ha : a.Keeps P O) (hb : b.Keeps P O) : (a.andThen b).Keeps P O :=
  Ensures.andThen ha hb

theorem keeps_reading {f : Relay → Act} (h : ∀ r, P r → (f r).Keeps P O) :
    (reading f).Keeps P O :=
  ensures_reading h

theorem Keeps.when (h : a.Keeps P O) (c : Relay → Bool) : (when c a).Keeps P O :=
  ensures_when (Ensures.of_imp h (fun _ hr => hr.1) fun _ hr => hr) fun _ hr _ => hr

/-- An act that is not made in any state with `P`. -/
theorem keeps_when_never {c : Relay → Bool} (h : ∀ r, P r → c r = false) :
    (Act.when c a).Keeps P O := by
  refine ensures_when (fun r hr => ?_) fun r hr _ => hr
  exact absurd hr.2 (Bool.eq_false_iff.mp (h r hr.1))

end Act

namespace Relay

/-- Putting the news of destruction last changes nothing about what is put out. -/
theorem mem_settle {o : Output} {outputs : List Output} :
    o ∈ Output.settle outputs ↔ o ∈ outputs := by
  rw [Output.settle, List.mem_append, List.mem_filter, List.mem_filter]
  cases o.isLate with
  | true => exact ⟨fun h => h.elim (·.1) (·.1), fun h => Or.inr ⟨h, rfl⟩⟩
  | false => exact ⟨fun h => h.elim (·.1) (·.1), fun h => Or.inl ⟨h, rfl⟩⟩

/-- Nothing but the stage of a relay is marked when it is given up. -/
theorem exists_markClosed (r : Relay) : ∃ stage, markClosed r = { r with stage := stage } := by
  rw [markClosed]
  split
  · exact ⟨.closed, rfl⟩
  · exact ⟨r.stage, rfl⟩

variable {P Q : Relay → Prop} {O : Output → Prop}

theorem step_ensures {e : RelayEvent} (h : (act e).Ensures P Q O) {r : Relay} (hr : P r) :
    Q (r.step e).1 ∧ ∀ o ∈ (r.step e).2, O o :=
  ⟨(h r hr).1, fun o ho => (h r hr).2 o (mem_settle.mp ho)⟩

/-- What every event keeps a run keeps. -/
theorem run_keeps (h : ∀ e, (act e).Keeps P O) {r : Relay} (hr : P r)
    (events : List RelayEvent) :
    P (r.run events).1 ∧ ∀ o ∈ (r.run events).2, O o := by
  induction events generalizing r with
  | nil => exact ⟨hr, fun _ ho => (nomatch ho)⟩
  | cons e events ih =>
      obtain ⟨hfirst, hout⟩ := step_ensures (h e) hr
      obtain ⟨hlast, hrest⟩ := ih hfirst
      refine ⟨hlast, fun o ho => ?_⟩
      rcases List.mem_append.mp ho with ho | ho
      · exact hout o ho
      · exact hrest o ho

/-- What holds between a state and the next one holds between a state and all later ones. -/
theorem run_related {R : Relay → Relay → Prop} (hrefl : ∀ r, R r r)
    (htrans : ∀ {r s t}, R r s → R s t → R r t) (hstep : ∀ r e, R r (r.step e).1)
    (r : Relay) (events : List RelayEvent) : R r (r.run events).1 := by
  induction events generalizing r with
  | nil => exact hrefl r
  | cons e events ih => exact htrans (hstep r e) (ih (r.step e).1)

end Relay

end SshDial

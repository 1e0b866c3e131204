import Mathlib.Logic.Basic
import SshDial.Proofs.Config.Idle
import SshDial.Proofs.Settings.Resolution
import SshDial.Proofs.Text.Lines

/-! # Continuation — what an Include line that brings nothing does to its stanza

    An Include line closes the open segment, and the directives after it make a second
    stanza with the same criteria.  The criteria are looked at again when the walk comes
    to it, in a state that the first stanza has changed. -/

namespace SshDial

open SshDial.Text

namespace Segment

/-- The stanza that the segment makes when it is closed with something in it. -/
def stanza (s : Segment) : Stanza := ⟨s.heading.criteria, s.heading.origin, s.directives⟩

theorem stanzas_of_empty {s : Segment} (hopened : s.opened = false)
    (hempty : s.directives = []) : s.stanzas = [] := by
  rw [stanzas]
  rw [hopened, hempty]
  rfl

theorem stanzas_of_opened {s : Segment} (h : s.opened = true) : s.stanzas = [s.stanza] := by
  rw [stanzas]
  rw [h]
  rfl

theorem stanzas_of_ne_nil {s : Segment} (h : s.directives ≠ []) : s.stanzas = [s.stanza] := by
  rw [stanzas]
  rw [if_pos]
  · rfl
  · rw [Bool.or_eq_true, Bool.not_eq_true', List.isEmpty_eq_false_iff]
    exact Or.inr h

/-- The criteria hold where the segment begins, and no longer after its directives. -/
def Lapses (subject : Subject) (y : Resolution) (s : Segment) : Prop :=
  Resolution.meets subject y s.heading.criteria = true
    ∧ Resolution.meets subject (Resolution.enter subject y s.stanza) s.heading.criteria
      = false

end Segment

/-- Criteria that no directive has a say in: all but those of a Match line that looks at
    the host name or the remote user. -/
def Criteria.isSteady : Criteria → Bool
  | .matching conditions => conditions.all fun c => c.criterion != .host && c.criterion != .user
  | _ => true

namespace Resolution

variable (subject : Subject)

/-- Steady criteria hold in every state or in none. -/
theorem meets_of_isSteady {subject : Subject} {criteria : Criteria}
    (h : criteria.isSteady = true) (s t : Resolution) :
    meets subject s criteria = meets subject t criteria := by
  cases criteria with
  | global => rfl
  | host patterns => rfl
  | matching conditions =>
      have hsame : ∀ c ∈ conditions, criterionHolds subject s c = criterionHolds subject t c := by
        intro c hc
        have hsteady := List.all_eq_true.mp h c hc
        rw [criterionHolds, criterionHolds]
        cases hcriterion : c.criterion with
        | host =>
            rw [hcriterion] at hsteady
            exact absurd hsteady (by decide)
        | user =>
            rw [hcriterion] at hsteady
            exact absurd hsteady (by decide)
        | _ => rfl
      show conditions.all _ = conditions.all _
      rw [Bool.eq_iff_iff, List.all_eq_true, List.all_eq_true]
      exact forall₂_congr fun c hc => by rw [hsame c hc]

theorem enter_unplaced (s : Resolution) (stanza : Stanza) :
    enter subject s stanza.unplaced = enter subject s stanza := by
  have hset : ∀ (ds : List Directive) (s : Resolution),
      (ds.map Directive.unplaced).foldl set s = ds.foldl set s := by
    intro ds
    induction ds with
    | nil => intro s; rfl
    | cons d ds ih => intro s; exact ih (s.set d)
  rw [enter, enter]
  show (if meets subject s stanza.criteria then
    (stanza.directives.map Directive.unplaced).foldl set (s.mark stanza.criteria) else s) = _
  rw [hset]

/-- Places do not matter. -/
theorem enterAll_unplaced (stanzas : List Stanza) (s : Resolution) :
    enterAll subject s (stanzas.map Stanza.unplaced) = enterAll subject s stanzas := by
  induction stanzas generalizing s with
  | nil => rfl
  | cons stanza stanzas ih =>
      show enterAll subject (enter subject s stanza.unplaced) _ = _
      rw [enter_unplaced, ih]
      rfl

/-- A stanza whose criteria still hold at the cut may be cut in two. -/
theorem enter_enter_of_meets {y : Resolution} {criteria : Criteria} {o o' : Origin}
    {ds ds' : List Directive} (hy : meets subject y criteria = true)
    (hcut : meets subject (enter subject y ⟨criteria, o, ds⟩) criteria = true) :
    enter subject (enter subject y ⟨criteria, o, ds⟩) ⟨criteria, o', ds'⟩
      = enter subject y ⟨criteria, o, ds ++ ds'⟩ := by
  have hfirst : enter subject y ⟨criteria, o, ds⟩ = (ds.foldl set y).mark criteria := by
    rw [enter]
    rw [if_pos hy, foldl_set_mark]
  have hwhole : enter subject y ⟨criteria, o, ds ++ ds'⟩
      = ds'.foldl set ((ds.foldl set y).mark criteria) := by
    rw [enter]
    rw [if_pos hy, List.foldl_append, foldl_set_mark]
  rw [enter, if_pos hcut, hfirst, mark_mark, hwhole]

theorem enter_of_not_meets {y : Resolution} {stanza : Stanza}
    (h : meets subject y stanza.criteria = false) : enter subject y stanza = y := by
  rw [enter]
  rw [if_neg (Bool.eq_false_iff.mp h)]

/-- Nothing lapses before the first directive. -/
theorem meets_enter_of_nil {y : Resolution} {criteria : Criteria} {o : Origin}
    (hy : meets subject y criteria = true) :
    meets subject (enter subject y ⟨criteria, o, []⟩) criteria = true := by
  rw [enter]
  rw [if_pos hy, ← hy]
  exact meets_congr subject rfl criteria

end Resolution

namespace Segment

variable {subject : Subject} {y : Resolution} {s : Segment}

/-- A stanza that does not lapse may be closed at any point and gone on with. -/
theorem enterAll_continued (h : ¬ s.Lapses subject y) (ds : List Directive) :
    Resolution.enterAll subject y (s.stanzas ++ ((continued s.heading).addAll ds).stanzas)
      = Resolution.enterAll subject y (s.addAll ds).stanzas := by
  by_cases hds : ds = []
  · rw [hds, addAll_nil, addAll_nil, stanzas_of_empty (s := continued s.heading) rfl rfl,
      List.append_nil]
  have hrest : ((continued s.heading).addAll ds).stanzas
      = [((continued s.heading).addAll ds).stanza] := stanzas_of_ne_nil hds
  have hwhole : (s.addAll ds).stanzas = [(s.addAll ds).stanza] :=
    stanzas_of_ne_nil (List.append_ne_nil_of_right_ne_nil _ hds)
  by_cases hkept : s.opened = true ∨ s.directives ≠ []
  · have hfirst : s.stanzas = [s.stanza] := hkept.elim stanzas_of_opened stanzas_of_ne_nil
    rw [hfirst, hrest, hwhole]
    show Resolution.enter subject (Resolution.enter subject y s.stanza)
      ⟨s.heading.criteria, s.heading.origin, ds⟩
      = Resolution.enter subject y ⟨s.heading.criteria, s.heading.origin, s.directives ++ ds⟩
    cases hy : Resolution.meets subject y s.heading.criteria with
    | true =>
        refine Resolution.enter_enter_of_meets subject hy ?_
        rw [← Bool.not_eq_false]
        exact fun hcut => h ⟨hy, hcut⟩
    | false =>
        -- Both parts are skipped, and so is the whole.
        have hskip : Resolution.enter subject y s.stanza = y :=
          Resolution.enter_of_not_meets subject hy
        have hskip' : ∀ ds', Resolution.enter subject y
            ⟨s.heading.criteria, s.heading.origin, ds'⟩ = y :=
          fun ds' => Resolution.enter_of_not_meets subject hy
        rw [hskip, hskip', hskip']
  · -- Nothing stands before the cut, and the part after it is the whole.
    obtain ⟨hopened, hempty⟩ := not_or.mp hkept
    rw [Bool.not_eq_true] at hopened
    rw [not_not] at hempty
    rw [stanzas_of_empty hopened hempty, hrest, hwhole]
    show Resolution.enter subject y ⟨s.heading.criteria, s.heading.origin, [] ++ ds⟩
      = Resolution.enter subject y ⟨s.heading.criteria, s.heading.origin, s.directives ++ ds⟩
    rw [hempty]

/-- What follows the cut in a stanza that lapses is lost. -/
theorem enterAll_lapsed (h : s.Lapses subject y) (ds : List Directive) :
    Resolution.enterAll subject y (s.stanzas ++ ((continued s.heading).addAll ds).stanzas)
      = Resolution.enterAll subject y s.stanzas := by
  by_cases hds : ds = []
  · rw [hds, addAll_nil, stanzas_of_empty (s := continued s.heading) rfl rfl, List.append_nil]
  -- Criteria lapse through a directive, so the part before the cut makes a stanza.
  have hsome : s.directives ≠ [] := by
    intro hempty
    have hmeets := Resolution.meets_enter_of_nil (o := s.heading.origin) subject h.1
    have hlapsed := h.2
    rw [stanza, hempty, hmeets] at hlapsed
    exact nomatch hlapsed
  have hrest : ((continued s.heading).addAll ds).stanzas
      = [((continued s.heading).addAll ds).stanza] := stanzas_of_ne_nil hds
  rw [Resolution.enterAll_append, stanzas_of_ne_nil hsome, hrest]
  exact Resolution.enter_of_not_meets subject h.2

end Segment

end SshDial

import SshDial.Settings

/-! # Resolution — what a walk through the stanzas depends on

    The walk notes the `exec` criteria that it meets, and nothing it decides ever looks at
    these notes.  `Resolution.enter` is one stanza without them: the criteria are looked
    at once (`meets`, a plain conjunction that reads the options alone), and a stanza that
    applies sets what it holds.  `Settings.find_eq_verdict` puts the settings of a host
    down to it, so later proofs never meet the notes.

    What is set comes from a directive (`Resolution.mem_options_enterAll`). -/

namespace SshDial

namespace Resolution

variable (subject : Subject)

/-- The state without the notes on what was passed over. -/
def forget (s : Resolution) : Resolution := { s with skipped := [] }

/-- Do the criteria hold in a state? -/
def meets (s : Resolution) : Criteria → Bool
  | .global => true
  | .host patterns => Pattern.matchesList patterns subject.host
  | .matching conditions => conditions.all (criterionHolds subject s)

/-- The state after one stanza, without notes. -/
def enter (s : Resolution) (stanza : Stanza) : Resolution :=
  if meets subject s stanza.criteria then stanza.directives.foldl set (s.mark stanza.criteria)
  else s

/-- The state after some stanzas, without notes. -/
def enterAll (s : Resolution) (stanzas : List Stanza) : Resolution :=
  stanzas.foldl (enter subject) s

/-- A criterion is met or not by what has been set. -/
theorem criterionHolds_congr {s t : Resolution} (h : s.options = t.options) (c : Condition) :
    criterionHolds subject s c = criterionHolds subject t c := by
  have hget : ∀ key, s.get? key = t.get? key := by
    intro key
    rw [get?, get?, h]
  rw [criterionHolds, criterionHolds, hostName, hostName, user, user]
  rw [hget, hget]

theorem meets_congr {s t : Resolution} (h : s.options = t.options) (criteria : Criteria) :
    meets subject s criteria = meets subject t criteria := by
  cases criteria with
  | global => rfl
  | host patterns => rfl
  | matching conditions =>
      show conditions.all _ = conditions.all _
      rw [funext (criterionHolds_congr subject h)]

theorem note_forget (s : Resolution) (c : Condition) : (s.note c).forget = s.forget := by
  rw [note]
  split
  · rfl
  · rfl

theorem options_note (s : Resolution) (c : Condition) : (s.note c).options = s.options := by
  have h := congrArg options (note_forget s c)
  exact h

/-- The conditions are a conjunction: the order of looking at them shows in the notes
    alone. -/
theorem conditionsHold_spec (s : Resolution) (cs : List Condition) :
    (conditionsHold subject s cs).1 = cs.all (criterionHolds subject s)
      ∧ (conditionsHold subject s cs).2.forget = s.forget := by
  induction cs generalizing s with
  | nil => exact ⟨rfl, rfl⟩
  | cons c cs ih =>
      rw [conditionsHold, List.all_cons]
      by_cases hc : criterionHolds subject s c = true
      · -- The note leaves the options alone, so the rest is looked at as before.
        obtain ⟨hfst, hsnd⟩ := ih (s.note c)
        rw [if_pos hc, hc, hfst, hsnd, Bool.true_and,
          funext (criterionHolds_congr subject (options_note s c))]
        exact ⟨rfl, note_forget s c⟩
      · rw [if_neg hc, Bool.eq_false_iff.mpr hc]
        exact ⟨rfl, note_forget s c⟩

theorem applies_spec (s : Resolution) (stanza : Stanza) :
    (applies subject s stanza).1 = meets subject s stanza.criteria
      ∧ (applies subject s stanza).2.forget = s.forget := by
  rw [applies]
  cases stanza.criteria with
  | global => exact ⟨rfl, rfl⟩
  | host patterns => exact ⟨rfl, rfl⟩
  | matching conditions => exact conditionsHold_spec subject s conditions

theorem foldl_set_forget (ds : List Directive) (s : Resolution) :
    (ds.foldl set s).forget = ds.foldl set s.forget := by
  induction ds generalizing s with
  | nil => rfl
  | cons d ds ih => exact ih (s.set d)

/-- Without the notes a visit is `enter`. -/
theorem visit_forget (s : Resolution) (stanza : Stanza) :
    (visit subject s stanza).forget = enter subject s.forget stanza := by
  obtain ⟨hfst, hsnd⟩ := applies_spec subject s stanza
  have hmeets : meets subject s.forget stanza.criteria = meets subject s stanza.criteria :=
    meets_congr subject rfl _
  rw [visit, enter]
  rw [hmeets, ← hfst]
  cases happlies : applies subject s stanza with
  | mk holds t =>
      rw [happlies] at hsnd
      cases holds with
      | false => exact hsnd
      | true =>
          show (stanza.directives.foldl set (t.mark stanza.criteria)).forget
            = stanza.directives.foldl set (s.forget.mark stanza.criteria)
          rw [foldl_set_forget, ← hsnd]
          rfl

theorem foldl_visit_forget (stanzas : List Stanza) (s : Resolution) :
    (stanzas.foldl (visit subject) s).forget = enterAll subject s.forget stanzas := by
  induction stanzas generalizing s with
  | nil => rfl
  | cons stanza stanzas ih =>
      rw [List.foldl_cons, ih, visit_forget]
      rfl

theorem enterAll_append (s : Resolution) (ss ts : List Stanza) :
    enterAll subject s (ss ++ ts) = enterAll subject (enterAll subject s ss) ts :=
  List.foldl_append

theorem walk_forget (stanzas : List Stanza) :
    (walk subject stanzas).forget = enterAll subject start stanzas :=
  foldl_visit_forget subject stanzas start

/-- Marking a stanza as applied and setting what it holds do not meet. -/
theorem foldl_set_mark (ds : List Directive) (s : Resolution) (criteria : Criteria) :
    ds.foldl set (s.mark criteria) = (ds.foldl set s).mark criteria := by
  induction ds generalizing s with
  | nil => rfl
  | cons d ds ih => exact ih (s.set d)

theorem mark_mark (s : Resolution) (criteria : Criteria) :
    (s.mark criteria).mark criteria = s.mark criteria := by
  rw [mark, mark]
  rw [Bool.or_assoc, Bool.or_self]

theorem matched_foldl_set (ds : List Directive) (s : Resolution) :
    (ds.foldl set s).matched = s.matched := by
  induction ds generalizing s with
  | nil => rfl
  | cons d ds ih => exact ih (s.set d)

/-- A stanza that applies is remembered, unless it stands before any Host or Match line. -/
theorem matched_enter (s : Resolution) (stanza : Stanza) :
    (enter subject s stanza).matched
      = (s.matched || (meets subject s stanza.criteria && stanza.criteria != .global)) := by
  rw [enter]
  cases meets subject s stanza.criteria with
  | false => exact (Bool.or_false _).symm
  | true =>
      rw [if_pos rfl, matched_foldl_set]
      rfl

theorem matched_enterAll {s : Resolution} (stanzas : List Stanza) (h : s.matched = true) :
    (enterAll subject s stanzas).matched = true := by
  induction stanzas generalizing s with
  | nil => exact h
  | cons stanza stanzas ih =>
      refine ih ?_
      rw [matched_enter, h, Bool.true_or]

theorem mem_options_of_get? {s : Resolution} {key value : String}
    (h : s.get? key = some value) : (key, value) ∈ s.options := by
  obtain ⟨before, after, hoptions, -⟩ := List.lookup_eq_some_iff.mp h
  rw [hoptions]
  exact List.mem_append_right before List.mem_cons_self

/-- Dropping the entries of other keywords does not change what is found under one. -/
theorem lookup_filter_keys {keep : String → Bool} {key : String} (h : keep key = true)
    (options : List (String × String)) :
    (options.filter (keep ·.1)).lookup key = options.lookup key := by
  induction options with
  | nil => rfl
  | cons entry options ih =>
      rw [List.filter_cons]
      by_cases hkey : key = entry.1
      · subst hkey
        rw [if_pos h, List.lookup_cons, List.lookup_cons, beq_self_eq_true]
      · have hdropped : (entry :: options).lookup key = options.lookup key := by
          rw [List.lookup_cons, beq_false_of_ne hkey]
        rw [hdropped, ← ih]
        split
        · rw [List.lookup_cons, beq_false_of_ne hkey]
        · rfl

/-- What is set by a directive is its keyword and value. -/
theorem mem_options_set {s : Resolution} {d : Directive} {entry : String × String}
    (h : entry ∈ (s.set d).options) : entry ∈ s.options ∨ entry = (d.key, d.value) := by
  rw [set] at h
  split at h
  · exact Or.inl h
  · rcases List.mem_append.mp h with hold | hnew
    · exact Or.inl hold
    · exact Or.inr (List.mem_singleton.mp hnew)

theorem mem_options_foldl_set {ds : List Directive} {s : Resolution}
    {entry : String × String} (h : entry ∈ (ds.foldl set s).options) :
    entry ∈ s.options ∨ ∃ d ∈ ds, entry = (d.key, d.value) := by
  induction ds generalizing s with
  | nil => exact Or.inl h
  | cons d ds ih =>
      rcases ih h with hfirst | ⟨d', hd', hentry⟩
      · rcases mem_options_set hfirst with hold | hnew
        · exact Or.inl hold
        · exact Or.inr ⟨d, List.mem_cons_self, hnew⟩
      · exact Or.inr ⟨d', List.mem_cons_of_mem d hd', hentry⟩

/-- Nothing is set but by a directive of a stanza. -/
theorem mem_options_enterAll {stanzas : List Stanza} {s : Resolution}
    {entry : String × String} (h : entry ∈ (enterAll subject s stanzas).options) :
    entry ∈ s.options
      ∨ ∃ stanza ∈ stanzas, ∃ d ∈ stanza.directives, entry = (d.key, d.value) := by
  induction stanzas generalizing s with
  | nil => exact Or.inl h
  | cons stanza stanzas ih =>
      rcases ih h with hfirst | ⟨stanza', hstanza', hentry⟩
      · rw [enter] at hfirst
        split at hfirst
        · rcases mem_options_foldl_set hfirst with hold | hnew
          · exact Or.inl hold
          · exact Or.inr ⟨stanza, List.mem_cons_self, hnew⟩
        · exact Or.inl hfirst
      · exact Or.inr ⟨stanza', List.mem_cons_of_mem stanza hstanza', hentry⟩

end Resolution

/-- What a state amounts to: settings, or the refusal when a stanza has to apply and none
    did. -/
def Resolution.verdict (subject : Subject) (requireMatch : Bool) (s : Resolution) :
    Except Failure Settings :=
  if requireMatch && !s.matched then .error (.unknownHost subject.host)
  else .ok (s.settings subject)

/-- The settings of a host by `enterAll`. -/
theorem Settings.find_eq_verdict (c : Config) (subject : Subject) (requireMatch : Bool) :
    Settings.find c subject.env ⟨subject.user, requireMatch⟩ subject.host
      = (Resolution.enterAll subject .start c.stanzas).verdict subject requireMatch := by
  rw [← Resolution.walk_forget]
  rfl

/-- Settings that are given are those of the state after all stanzas. -/
theorem Settings.settings_of_find {c : Config} {subject : Subject} {requireMatch : Bool}
    {r : Settings}
    (h : Settings.find c subject.env ⟨subject.user, requireMatch⟩ subject.host = .ok r) :
    r = (Resolution.enterAll subject .start c.stanzas).settings subject := by
  rw [Settings.find_eq_verdict, Resolution.verdict] at h
  split at h
  · exact nomatch h
  · exact (Except.ok.inj h).symm

theorem Settings.settings_walk_of_find {c : Config} {env : Environment} {query : Query}
    {host : String} {r : Settings} (h : Settings.find c env query host = .ok r) :
    r = (Resolution.walk ⟨host, env, query.user⟩ c.stanzas).settings ⟨host, env, query.user⟩ := by
  have hr := @Settings.settings_of_find c ⟨host, env, query.user⟩ _ r h
  rw [← Resolution.walk_forget] at hr
  exact hr

/-- What is logged does not show in the settings. -/
theorem Settings.value_resolve (config : Config) (env : Environment) (query : Query)
    (host : String) : (resolve config env query host).value = find config env query host := by
  rw [resolve]
  cases find config env query host with
  | error failure => rfl
  | ok r => rfl

end SshDial

import SshDial.Proofs.Settings.Resolution

/-! # Precedence — what is set first stays

    A walk through the stanzas is, as far as the options go, one fold over the directives
    of the stanzas that apply (`Resolution.options_foldl_visit`).  The fold only adds at
    the end, and it never changes a keyword that is barred, be it by its own value or by
    its rival's.  So a configuration that is gone on with keeps what it has settled, and
    of the rest each keyword takes its first directive (`Settings.find_append`). -/

namespace SshDial

namespace Resolution

variable {s t : Resolution} {d : Directive} {key value : String}

/-! ## One directive -/

theorem get?_congr (h : s.options = t.options) (key : String) : s.get? key = t.get? key := by
  rw [get?, get?, h]

/-- A value is found again in any state that has been gone on from. -/
theorem get?_mono (h : s.options <+: t.options) (hvalue : s.get? key = some value) :
    t.get? key = some value := by
  obtain ⟨more, hmore⟩ := h
  rw [get?, ← hmore, List.lookup_append]
  rw [get?] at hvalue
  rw [hvalue]
  rfl

theorem isBarred_congr (h : s.options = t.options) (key : String) :
    s.isBarred key = t.isBarred key := by
  have hget : s.get? = t.get? := funext (get?_congr h)
  rw [isBarred, isBarred, hget]

/-- What bars a keyword bars it for good. -/
theorem isBarred_mono (h : s.options <+: t.options) (hbarred : s.isBarred key = true) :
    t.isBarred key = true := by
  have hmore : ∀ k, (s.get? k).isSome = true → (t.get? k).isSome = true := by
    intro k hk
    obtain ⟨v, hv⟩ := Option.isSome_iff_exists.mp hk
    exact Option.isSome_of_eq_some (get?_mono h hv)
  rw [isBarred, Bool.or_eq_true] at hbarred ⊢
  refine hbarred.imp (hmore key) fun hrival => ?_
  cases hk : rival? key with
  | none =>
      rw [hk] at hrival
      exact nomatch hrival
  | some k =>
      rw [hk] at hrival
      exact hmore k hrival

theorem options_prefix_set (s : Resolution) (d : Directive) : s.options <+: (s.set d).options := by
  rw [set]
  split
  · exact List.prefix_refl _
  · exact List.prefix_append _ _

theorem get?_set_of_ne (h : d.key ≠ key) : (s.set d).get? key = s.get? key := by
  rw [get?, get?, set]
  split
  · rfl
  · rw [List.lookup_append, List.lookup_cons, beq_false_of_ne h.symm]
    exact Option.or_none

/-- A barred keyword keeps its value, or goes on without one. -/
theorem get?_set_of_isBarred (h : s.isBarred key = true) :
    (s.set d).get? key = s.get? key := by
  by_cases hkey : d.key = key
  · rw [get?, get?, set, hkey, if_pos h]
  · exact get?_set_of_ne hkey

/-- A keyword without a value takes that of a directive, unless its rival has one. -/
theorem get?_set_self (h : s.get? d.key = none) :
    (s.set d).get? d.key
      = if ((rival? d.key).bind s.get?).isSome then none else some d.value := by
  have hbarred : s.isBarred d.key = ((rival? d.key).bind s.get?).isSome := by
    rw [isBarred, h]
    rfl
  rw [← hbarred]
  by_cases hb : s.isBarred d.key = true
  · rw [if_pos hb, get?_set_of_isBarred hb, h]
  · rw [if_neg hb, get?, set, if_neg hb, List.lookup_append]
    rw [get?] at h
    rw [h, List.lookup_cons, beq_self_eq_true]
    rfl

/-! ## Some directives -/

theorem options_foldl_congr (h : s.options = t.options) (ds : List Directive) :
    (ds.foldl set s).options = (ds.foldl set t).options := by
  induction ds generalizing s t with
  | nil => exact h
  | cons d ds ih =>
      refine ih ?_
      rw [set, set, isBarred_congr h, h]

theorem options_prefix_foldl (s : Resolution) (ds : List Directive) :
    s.options <+: (ds.foldl set s).options := by
  induction ds generalizing s with
  | nil => exact List.prefix_refl _
  | cons d ds ih => exact (options_prefix_set s d).trans (ih (s.set d))

theorem get?_foldl_of_isBarred (h : s.isBarred key = true) (ds : List Directive) :
    (ds.foldl set s).get? key = s.get? key := by
  induction ds generalizing s with
  | nil => rfl
  | cons d ds ih =>
      rw [List.foldl_cons, ih (isBarred_mono (options_prefix_set s d) h),
        get?_set_of_isBarred h]

theorem get?_foldl_of_not_mem {ds : List Directive} (h : key ∉ ds.map (·.key)) :
    (ds.foldl set s).get? key = s.get? key := by
  induction ds generalizing s with
  | nil => rfl
  | cons d ds ih =>
      rw [List.map_cons, List.mem_cons, not_or] at h
      rw [List.foldl_cons, ih h.2, get?_set_of_ne (Ne.symm h.1)]

/-- The first directive for a keyword decides about it: later ones find the keyword set,
    or its rival still in the way. -/
theorem get?_foldl_first {before after : List Directive} (h : s.get? d.key = none)
    (hfirst : d.key ∉ before.map (·.key)) :
    ((before ++ d :: after).foldl set s).get? d.key
      = if ((rival? d.key).bind (before.foldl set s).get?).isSome then none
        else some d.value := by
  have hnone : (before.foldl set s).get? d.key = none :=
    (get?_foldl_of_not_mem hfirst).trans h
  have hset := get?_set_self hnone
  rw [List.foldl_append, List.foldl_cons, ← hset]
  refine get?_foldl_of_isBarred ?_ after
  rw [isBarred, hset]
  by_cases hrival : ((rival? d.key).bind (before.foldl set s).get?).isSome = true
  · have hbarred : (before.foldl set s).isBarred d.key = true := by
      rw [isBarred, hrival, Bool.or_true]
    have hstill := isBarred_mono (options_prefix_set _ d) hbarred
    rw [isBarred, hset] at hstill
    exact hstill
  · rw [if_neg hrival]
    rfl

/-! ## Whole walks -/

variable (subject : Subject)

/-- The directives of the stanzas that apply, in the order in which they are met.  The
    criteria of a stanza are looked at in the state that all stanzas before it have left. -/
def inForce : Resolution → List Stanza → List Directive
  | _, [] => []
  | s, stanza :: stanzas =>
      (if (applies subject s stanza).1 then stanza.directives else [])
        ++ inForce (visit subject s stanza) stanzas

theorem options_visit (s : Resolution) (stanza : Stanza) :
    (visit subject s stanza).options
      = ((if (applies subject s stanza).1 then stanza.directives else []).foldl set s).options := by
  have hoptions := congrArg options (applies_spec subject s stanza).2
  rw [visit]
  cases happlies : applies subject s stanza with
  | mk holds t =>
      rw [happlies] at hoptions
      cases holds with
      | false => exact hoptions
      | true =>
          have hmark : (t.mark stanza.criteria).options = s.options := hoptions
          exact options_foldl_congr hmark stanza.directives

/-- Of the stanzas the options see nothing but the directives in force. -/
theorem options_foldl_visit (s : Resolution) (stanzas : List Stanza) :
    (stanzas.foldl (visit subject) s).options
      = ((inForce subject s stanzas).foldl set s).options := by
  induction stanzas generalizing s with
  | nil => rfl
  | cons stanza stanzas ih =>
      rw [List.foldl_cons, ih, inForce, List.foldl_append]
      exact options_foldl_congr (options_visit subject s stanza) _

theorem matched_foldl_visit {s : Resolution} (stanzas : List Stanza) (h : s.matched = true) :
    (stanzas.foldl (visit subject) s).matched = true := by
  have hforget := congrArg matched (foldl_visit_forget subject stanzas s)
  exact hforget.trans (matched_enterAll subject stanzas h)

theorem walk_append (ss ts : List Stanza) :
    walk subject (ss ++ ts) = ts.foldl (visit subject) (walk subject ss) :=
  List.foldl_append

/-- What has been set when some stanzas are through is still there, in its place, when
    more have been met. -/
theorem options_prefix_walk (ss ts : List Stanza) :
    (walk subject ss).options <+: (walk subject (ss ++ ts)).options := by
  rw [walk_append, options_foldl_visit]
  exact options_prefix_foldl _ _

theorem get?_walk_of_isBarred {ss : List Stanza} (ts : List Stanza) {key : String}
    (h : (walk subject ss).isBarred key = true) :
    (walk subject (ss ++ ts)).get? key = (walk subject ss).get? key := by
  rw [walk_append, get?_congr (options_foldl_visit subject _ ts)]
  exact get?_foldl_of_isBarred h _

theorem get?_walk_of_isSome {ss : List Stanza} (ts : List Stanza) {key : String}
    (h : ((walk subject ss).get? key).isSome = true) :
    (walk subject (ss ++ ts)).get? key = (walk subject ss).get? key := by
  refine get?_walk_of_isBarred subject ts ?_
  rw [isBarred, h, Bool.true_or]

end Resolution

namespace Settings

open Resolution

/-- The value that a keyword has been given. -/
def value? (r : Settings) (key : String) : Option String := r.options.lookup key

/-- Whatever `r` has settled is the same in `r'`. -/
structure Keeps (r r' : Settings) : Prop where
  options : r.options <+: r'.options
  hostName : (r.value? "hostname").isSome = true → r'.hostName = r.hostName
  user : (r.value? "user").isSome = true → r'.user = r.user
  port : (r.value? "port").isSome = true → r'.port = r.port
  /-- One proxy keyword settles both. -/
  proxy : (r.value? "proxycommand").isSome = true ∨ (r.value? "proxyjump").isSome = true →
    r'.proxyCommand = r.proxyCommand ∧ r'.proxyJump = r.proxyJump
  matched : r.matched = true → r'.matched = true

theorem find_of_not_requireMatch (c : Config) (subject : Subject) :
    find c subject.env ⟨subject.user, false⟩ subject.host
      = .ok ((walk subject c.stanzas).settings subject) := rfl

theorem keeps_settings_append (subject : Subject) (ss ts : List Stanza) :
    ((walk subject ss).settings subject).Keeps ((walk subject (ss ++ ts)).settings subject) where
  options := options_prefix_walk subject ss ts
  hostName h := by
    show Resolution.hostName subject _ = Resolution.hostName subject _
    rw [Resolution.hostName, Resolution.hostName, get?_walk_of_isSome subject ts h]
  user h := by
    show Resolution.user subject _ = Resolution.user subject _
    rw [Resolution.user, Resolution.user, get?_walk_of_isSome subject ts h]
  port h := by
    show Resolution.port _ = Resolution.port _
    rw [Resolution.port, Resolution.port, get?_walk_of_isSome subject ts h]
  proxy h := by
    have hcommand : (walk subject ss).isBarred "proxycommand" = true := Bool.or_eq_true_iff.mpr h
    have hjump : (walk subject ss).isBarred "proxyjump" = true := Bool.or_eq_true_iff.mpr h.symm
    show ((walk subject (ss ++ ts)).get? _).filter _ = ((walk subject ss).get? _).filter _
      ∧ ((walk subject (ss ++ ts)).get? _).filter _ = ((walk subject ss).get? _).filter _
    rw [get?_walk_of_isBarred subject ts hcommand, get?_walk_of_isBarred subject ts hjump]
    exact ⟨rfl, rfl⟩
  matched h := by
    show (walk subject (ss ++ ts)).matched = true
    rw [walk_append]
    exact matched_foldl_visit subject ts h

/-- **First come, first served, over whole configurations.** The settings of some stanzas
    stand in those of the stanzas with more behind them.  A keyword that the first ones
    leave unset takes the value of its first directive in a stanza that applies, unless
    its rival has been set by then; and without such a directive it stays unset. -/
theorem find_append (subject : Subject) (ss ts : List Stanza) (files files' : List String) :
    ∃ r r' : Settings,
      find ⟨ss, files⟩ subject.env ⟨subject.user, false⟩ subject.host = .ok r
        ∧ find ⟨ss ++ ts, files'⟩ subject.env ⟨subject.user, false⟩ subject.host = .ok r'
        ∧ r.Keeps r'
        ∧ ∀ key, r.value? key = none →
            (∀ before d after,
                inForce subject (walk subject ss) ts = before ++ d :: after →
                d.key = key → key ∉ before.map (·.key) →
                r'.value? key
                  = if ((rival? key).bind (before.foldl set (walk subject ss)).get?).isSome
                    then none else some d.value)
              ∧ (key ∉ (inForce subject (walk subject ss) ts).map (·.key) →
                  r'.value? key = none) := by
  refine ⟨_, _, find_of_not_requireMatch ⟨ss, files⟩ subject,
    find_of_not_requireMatch ⟨ss ++ ts, files'⟩ subject,
    keeps_settings_append subject ss ts, fun key hunset => ?_⟩
  have hvalue : (walk subject (ss ++ ts)).get? key
      = ((inForce subject (walk subject ss) ts).foldl set (walk subject ss)).get? key := by
    rw [walk_append]
    exact get?_congr (options_foldl_visit subject _ ts) key
  constructor
  · rintro before d after hforce rfl hfirst
    refine hvalue.trans ?_
    rw [hforce]
    exact get?_foldl_first hunset hfirst
  · intro hnone
    exact hvalue.trans ((get?_foldl_of_not_mem hnone).trans hunset)

end Settings

end SshDial

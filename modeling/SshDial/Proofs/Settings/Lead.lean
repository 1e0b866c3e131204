import SshDial.Proofs.Settings.Precedence

/-! # Lead — one directive in front of a configuration

    A directive in a global stanza at the very front is the first of its keyword, for every
    host.  Beside it the same walk is done without it, for a subject that knows by other
    means what the directive says.  As long as the keyword bars no other one and the
    subjects name the same user (`Subject.Matches`), both walks meet the same stanzas, and
    the states they reach differ in that keyword's option alone (`Resolution.Beside.walk`).

    A user that the caller chooses is such a thing known by other means, so the choice
    comes to the same settings as a User line in front (`Settings.resolve_user_ledBy`). -/

namespace SshDial

/-- The configuration with a directive in front that holds for every host. -/
def Config.ledBy (d : Directive) (o : Origin) (c : Config) : Config :=
  { c with stanzas := ⟨.global, o, [d]⟩ :: c.stanzas }

/-- The settings without the option of a keyword. -/
def Settings.without (key : String) (r : Settings) : Settings :=
  { r with options := r.options.filter (·.1 != key) }

namespace Resolution

variable {s t : Resolution} {d : Directive} {key value : String}

/-! ## One keyword left out -/

/-- The state without the option of a keyword. -/
def without (key : String) (s : Resolution) : Resolution :=
  { s with options := s.options.filter (·.1 != key) }

/-- A keyword that has no part in others: it has no rival, and its values do not add up. -/
def IsLone (key : String) : Prop :=
  rival? key = none ∧ key ≠ "identityfile" ∧ key ≠ "certificatefile"

instance (key : String) : Decidable (IsLone key) := inferInstanceAs (Decidable (_ ∧ _))

theorem get?_without {k : String} (h : k ≠ key) : (s.without key).get? k = s.get? k := by
  have hkeep : (k != key) = true := bne_iff_ne.mpr h
  exact @lookup_filter_keys (· != key) k hkeep s.options

/-- Rivals have rivals, so a keyword without one is nobody's. -/
theorem rival?_ne_some (h : rival? key = none) (k : String) : rival? k ≠ some key := by
  intro hk
  rw [rival?] at hk
  split at hk
  · obtain rfl := Option.some.inj hk
    exact nomatch h
  · split at hk
    · obtain rfl := Option.some.inj hk
      exact nomatch h
    · exact nomatch hk

theorem isBarred_without (hlone : IsLone key) {k : String} (h : k ≠ key) :
    (s.without key).isBarred k = s.isBarred k := by
  have hrival : (rival? k).bind (s.without key).get? = (rival? k).bind s.get? := by
    cases hk : rival? k with
    | none => rfl
    | some other =>
        refine get?_without ?_
        rintro rfl
        exact rival?_ne_some hlone.1 k hk
  rw [isBarred, isBarred, get?_without h, hrival]

/-- Directives of other keywords do not see that one is left out. -/
theorem set_without (hlone : IsLone key) (h : d.key ≠ key) :
    (s.set d).without key = (s.without key).set d := by
  have hkept : (d.key != key) = true := bne_iff_ne.mpr h
  rw [without, set, set, isBarred_without hlone h]
  congr 1
  show (if s.isBarred d.key then s.options else s.options ++ [(d.key, d.value)]).filter _ = _
  split
  · rfl
  · rw [List.filter_append, List.filter_cons, if_pos hkept]
    rfl

/-- A directive of the keyword itself shows nowhere else. -/
theorem set_without_self (hlone : IsLone d.key) : (s.set d).without d.key = s.without d.key := by
  have hdropped : (d.key != d.key) = false := bne_self_eq_false d.key
  rw [without, without, set, if_neg hlone.2.1, if_neg hlone.2.2]
  congr 1
  show (if s.isBarred d.key then s.options else s.options ++ [(d.key, d.value)]).filter _ = _
  split
  · rfl
  · rw [List.filter_append, List.filter_cons, hdropped]
    exact List.append_nil _

/-! ## Two states side by side -/

/-- The states differ in the option of a keyword alone, and the second one has it. -/
structure Beside (key value : String) (s t : Resolution) : Prop where
  without : s.without key = t.without key
  value : t.get? key = some value

theorem Beside.get? (h : Beside key value s t) {k : String} (hk : k ≠ key) :
    s.get? k = t.get? k := by
  rw [← get?_without hk, h.without, get?_without hk]

theorem Beside.matched (h : Beside key value s t) : s.matched = t.matched := by
  have hsame := congrArg Resolution.matched h.without
  exact hsame

theorem Beside.skipped (h : Beside key value s t) : s.skipped = t.skipped := by
  have hsame := congrArg Resolution.skipped h.without
  exact hsame

theorem Beside.set (hlone : IsLone key) (h : Beside key value s t) (d : Directive) :
    Beside key value (s.set d) (t.set d) where
  without := by
    by_cases hkey : d.key = key
    · subst hkey
      rw [set_without_self hlone, set_without_self hlone, h.without]
    · rw [set_without hlone hkey, set_without hlone hkey, h.without]
  value := by
    have hbarred : t.isBarred key = true := by
      rw [isBarred, h.value]
      rfl
    rw [get?_set_of_isBarred hbarred, h.value]

theorem Beside.foldl_set (hlone : IsLone key) (h : Beside key value s t) (ds : List Directive) :
    Beside key value (ds.foldl Resolution.set s) (ds.foldl Resolution.set t) := by
  induction ds generalizing s t with
  | nil => exact h
  | cons d ds ih => exact ih (h.set hlone d)

theorem Beside.mark (h : Beside key value s t) (criteria : Criteria) :
    Beside key value (s.mark criteria) (t.mark criteria) :=
  ⟨congrArg (Resolution.mark · criteria) h.without, h.value⟩

theorem Beside.note (h : Beside key value s t) (c : Condition) :
    Beside key value (s.note c) (t.note c) := by
  rw [Resolution.note, Resolution.note]
  split
  · exact ⟨congrArg
      (fun r : Resolution => { r with skipped := r.skipped ++ [c.patterns.head?] }) h.without,
      h.value⟩
  · exact h

end Resolution

/-- Two subjects that are told the same: one host in one environment, and the remote user
    of the first is that of the second when it has the keyword set. -/
structure Subject.Matches (key value : String) (x y : Subject) : Prop where
  lone : Resolution.IsLone key
  /-- The host name would be another one. -/
  key_ne : key ≠ "hostname"
  host : x.host = y.host
  env : x.env = y.env
  user {s t : Resolution} : Resolution.Beside key value s t → s.user x = t.user y

namespace Resolution

variable {s t : Resolution} {key value : String} {x y : Subject}

theorem Beside.hostName (hxy : x.Matches key value y) (h : Beside key value s t) :
    s.hostName x = t.hostName y := by
  rw [Resolution.hostName, Resolution.hostName, h.get? hxy.key_ne.symm, hxy.host]

/-- No criterion tells the states apart. -/
theorem Beside.criterionHolds (hxy : x.Matches key value y) (h : Beside key value s t)
    (c : Condition) :
    Resolution.criterionHolds x s c = Resolution.criterionHolds y t c := by
  rw [Resolution.criterionHolds, Resolution.criterionHolds, h.hostName hxy, hxy.host, hxy.env,
    hxy.user h]

theorem Beside.conditionsHold (hxy : x.Matches key value y) (h : Beside key value s t)
    (cs : List Condition) :
    (Resolution.conditionsHold x s cs).1 = (Resolution.conditionsHold y t cs).1
      ∧ Beside key value (Resolution.conditionsHold x s cs).2
          (Resolution.conditionsHold y t cs).2 := by
  induction cs generalizing s t with
  | nil => exact ⟨rfl, h⟩
  | cons c cs ih =>
      rw [Resolution.conditionsHold, Resolution.conditionsHold, h.criterionHolds hxy]
      split
      · exact ih (h.note c)
      · exact ⟨rfl, h.note c⟩

theorem Beside.applies (hxy : x.Matches key value y) (h : Beside key value s t)
    (stanza : Stanza) :
    (Resolution.applies x s stanza).1 = (Resolution.applies y t stanza).1
      ∧ Beside key value (Resolution.applies x s stanza).2
          (Resolution.applies y t stanza).2 := by
  rw [Resolution.applies, Resolution.applies]
  cases stanza.criteria with
  | global => exact ⟨rfl, h⟩
  | host patterns =>
      rw [hxy.host]
      exact ⟨rfl, h⟩
  | matching conditions => exact h.conditionsHold hxy conditions

/-- One stanza leaves the states side by side. -/
theorem Beside.visit (hxy : x.Matches key value y) (h : Beside key value s t)
    (stanza : Stanza) :
    Beside key value (Resolution.visit x s stanza) (Resolution.visit y t stanza) := by
  obtain ⟨hsame, hbeside⟩ := h.applies hxy stanza
  rw [Resolution.visit, Resolution.visit]
  cases hx : Resolution.applies x s stanza with
  | mk holds s' =>
      cases hy : Resolution.applies y t stanza with
      | mk holds' t' =>
          rw [hx, hy] at hsame hbeside
          obtain rfl : holds = holds' := hsame
          cases holds with
          | false => exact hbeside
          | true => exact (hbeside.mark stanza.criteria).foldl_set hxy.lone stanza.directives

theorem Beside.foldl_visit (hxy : x.Matches key value y) (h : Beside key value s t)
    (stanzas : List Stanza) :
    Beside key value (stanzas.foldl (Resolution.visit x) s)
      (stanzas.foldl (Resolution.visit y) t) := by
  induction stanzas generalizing s t with
  | nil => exact h
  | cons stanza stanzas ih => exact ih (h.visit hxy stanza)

/-- **The walk without the directive keeps beside the walk that begins with it.** -/
theorem Beside.walk {d : Directive} (hxy : x.Matches d.key d.value y) (c : Config) (o : Origin) :
    Beside d.key d.value (Resolution.walk x c.stanzas) (Resolution.walk y (c.ledBy d o).stanzas) := by
  have hfirst : Beside d.key d.value start (start.set d) := by
    have hfree : start.get? d.key = none := rfl
    refine ⟨(set_without_self hxy.lone).symm, ?_⟩
    rw [get?_set_self hfree, hxy.lone.1]
    rfl
  exact hfirst.foldl_visit hxy c.stanzas

end Resolution

namespace Settings

open Resolution

variable {s t : Resolution} {key value : String} {x y : Subject}

/-- What a state amounts to beside another one: the same, but for the option and, if the
    option is the port, for the port and the paths that it is put into. -/
theorem settings_without_of_beside (hxy : x.Matches key value y) (h : Beside key value s t) :
    (s.settings x).without key
      = { (t.settings y).without key with
          port := s.port
          identityFiles := t.identityFiles.map (s.expandPath x)
          certificateFiles := t.certificateFiles.map (s.expandPath x) } := by
  have hproxy : ∀ k, (rival? k).isSome = true → s.get? k = t.get? k := by
    intro k hk
    refine h.get? ?_
    rintro rfl
    rw [hxy.lone.1] at hk
    exact nomatch hk
  have hoptions : s.options.filter (·.1 != key) = t.options.filter (·.1 != key) :=
    congrArg Resolution.options h.without
  have hidentity : s.identityFiles = t.identityFiles :=
    congrArg (·.identityFiles) h.without
  have hcertificate : s.certificateFiles = t.certificateFiles :=
    congrArg (·.certificateFiles) h.without
  rw [without, without, settings, settings]
  dsimp only
  rw [h.hostName hxy, hxy.user h, hxy.host, hproxy "proxycommand" rfl, hproxy "proxyjump" rfl,
    hoptions, hidentity, hcertificate, h.matched]

theorem port_of_beside (hkey : key ≠ "port") (h : Beside key value s t) : s.port = t.port := by
  rw [Resolution.port, Resolution.port, h.get? hkey.symm]

/-- Paths are expanded alike where the port is the same. -/
theorem expandPath_of_beside (hxy : x.Matches key value y) (h : Beside key value s t)
    (hport : s.port = t.port) : s.expandPath x = t.expandPath y := by
  funext path
  rw [expandPath, expandPath, pathTokens, pathTokens, h.hostName hxy, hxy.user h, hxy.host,
    hxy.env, hport]

/-- Both subjects are refused, or both get the settings of their states. -/
theorem find_beside {d : Directive} (hxy : x.Matches d.key d.value y) (c : Config) (o : Origin)
    (requireMatch : Bool) :
    (∃ f, find c x.env ⟨x.user, requireMatch⟩ x.host = .error f
        ∧ find (c.ledBy d o) y.env ⟨y.user, requireMatch⟩ y.host = .error f)
      ∨ (find c x.env ⟨x.user, requireMatch⟩ x.host
            = .ok ((walk x c.stanzas).settings x)
          ∧ find (c.ledBy d o) y.env ⟨y.user, requireMatch⟩ y.host
            = .ok ((walk y (c.ledBy d o).stanzas).settings y)) := by
  show (∃ f, (walk x c.stanzas).verdict x requireMatch = .error f
      ∧ (walk y (c.ledBy d o).stanzas).verdict y requireMatch = .error f)
    ∨ ((walk x c.stanzas).verdict x requireMatch = .ok _
      ∧ (walk y (c.ledBy d o).stanzas).verdict y requireMatch = .ok _)
  rw [verdict, verdict, (Beside.walk hxy c o).matched, hxy.host]
  split
  · exact Or.inl ⟨_, rfl, rfl⟩
  · exact Or.inr ⟨rfl, rfl⟩

/-- A subject with a user of the caller's choice, beside one that is to find the user in
    front of its configuration. -/
theorem matches_of_user (host : String) (env : Environment) (user : String) :
    Subject.Matches "user" user ⟨host, env, some user⟩ ⟨host, env, none⟩ where
  lone := by decide
  key_ne := by decide
  host := rfl
  env := rfl
  user := by
    intro s t h
    show user = (t.get? "user").getD env.localUser
    rw [h.value]
    rfl

/-- **The caller's user is a User line at the top.** Choosing the remote user and asking
    for a host comes to the same as putting the choice in front of the configuration: the
    same refusal or the same settings, but for the option that the User line leaves, and
    the same entries in the log. -/
theorem resolve_user_ledBy (config : Config) (env : Environment) (requireMatch : Bool)
    (host user : String) (name : String) (args : List String) (place place' : Origin) :
    (resolve config env ⟨some user, requireMatch⟩ host).map (·.map (without "user"))
      = (resolve (config.ledBy ⟨"user", name, user, args, place⟩ place') env
          ⟨none, requireMatch⟩ host).map (·.map (without "user")) := by
  have hxy := matches_of_user host env user
  have h := Beside.walk (d := ⟨"user", name, user, args, place⟩) hxy config place'
  have hskipped := h.skipped
  rcases find_beside (d := ⟨"user", name, user, args, place⟩) hxy config place' requireMatch with
    ⟨f, hfirst, hsecond⟩ | ⟨hfirst, hsecond⟩
  · rw [resolve, resolve, hfirst, hsecond, hskipped]
  · have hport := port_of_beside (by decide : "user" ≠ "port") h
    have hsettings := settings_without_of_beside hxy h
    rw [expandPath_of_beside hxy h hport, hport] at hsettings
    rw [resolve, resolve, hfirst, hsecond, hskipped]
    exact congrArg (fun r => Logged.mk (Except.ok r) (_ ++ [resolvedEntry r])) hsettings

end Settings

end SshDial

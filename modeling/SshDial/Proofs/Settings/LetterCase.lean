import Mathlib.Data.List.Forall2
import SshDial.Proofs.Settings.Resolution

/-! # Letter case — one host under two spellings

    `Text.SameButCase` relates texts that are the same but for the letter case of their
    UTF-16 units.  Patterns cannot tell such texts apart (`Pattern.matchesList_congr`), and
    templates carry the relation on from what is put into them (`Template.sameButCase_expand`).
    So the walk through the stanzas comes to the very same state for both spellings of an
    alias (`Resolution.walk_congr`), and what is read off it differs in nothing but the
    places that spell the alias out: `Settings.resolve_sameButCase`. -/

namespace SshDial

/-! ## Texts that are the same but for letter case -/

namespace Text

/-- The units of a text, all in the same letter case. -/
def foldedUnits (s : List Char) : List Nat := (units s).map fold

/-- The texts are the same, unit by unit, but for letter case. -/
def SameButCase (s t : String) : Prop := foldedUnits s.toList = foldedUnits t.toList

instance (s t : String) : Decidable (SameButCase s t) := inferInstanceAs (Decidable (_ = _))

theorem foldedUnits_append (s t : List Char) :
    foldedUnits (s ++ t) = foldedUnits s ++ foldedUnits t := by
  rw [foldedUnits, units_append, List.map_append]
  rfl

theorem foldedUnits_cons (c : Char) (s : List Char) :
    foldedUnits (c :: s) = foldedUnits [c] ++ foldedUnits s := foldedUnits_append [c] s

/-- Letter case is all that two units at the same place differ in. -/
theorem SameButCase.forall₂ {s t : String} (h : SameButCase s t) :
    List.Forall₂ (fun u v => fold u = fold v) (units s.toList) (units t.toList) := by
  have heq : List.Forall₂ (· = ·) (foldedUnits s.toList) (foldedUnits t.toList) := by
    rw [List.forall₂_eq_eq_eq]
    exact h
  exact List.forall₂_map_right_iff.mp (List.forall₂_map_left_iff.mp heq)

end Text

open SshDial.Text

/-! ## Patterns and templates -/

/-- A wildcard pattern cannot tell texts apart whose units are of the same kinds, place by
    place. -/
theorem Wildcard.accepts_congr {κ : Type} {ok : κ → Nat → Bool} {s t : List Nat}
    (h : List.Forall₂ (fun u v => ∀ kind, ok kind u = ok kind v) s t)
    (p : List (Wildcard κ)) : accepts ok p s = accepts ok p t := by
  induction p generalizing s t with
  | nil =>
      rw [accepts_nil, accepts_nil]
      cases h with
      | nil => rfl
      | cons _ _ => rfl
  | cons piece p ih =>
      cases piece with
      | run =>
          -- A run may go on from unit to unit, so the texts are taken apart as well.
          induction h with
          | nil => rfl
          | @cons u v s t hunit hrest ihrest =>
              rw [accepts_run, accepts_run]
              show (accepts ok p (u :: s) || accepts ok (.run :: p) s)
                = (accepts ok p (v :: t) || accepts ok (.run :: p) t)
              rw [ih (.cons hunit hrest), ihrest]
      | one kind =>
          rw [accepts_one, accepts_one]
          cases h with
          | nil => rfl
          | @cons u v s t hunit hrest =>
              show (ok kind u && accepts ok p s) = (ok kind v && accepts ok p t)
              rw [hunit kind, ih hrest]

namespace Pattern

variable {s t : String}

/-- A unit of a pattern stands for both cases of a letter or for none. -/
theorem Unit.ok_congr {u v : Nat} (h : fold u = fold v) (kind : Pattern.Unit) :
    kind.ok u = kind.ok v := by
  cases kind with
  | any => rfl
  | like unit =>
      show (fold unit == fold u) = (fold unit == fold v)
      rw [h]

theorem matchesPattern_congr (h : SameButCase s t) (pattern : String) :
    matchesPattern pattern s = matchesPattern pattern t :=
  Wildcard.accepts_congr (h.forall₂.imp fun _ _ hunit => Unit.ok_congr hunit) _

theorem matchesListFrom_congr (h : SameButCase s t) (matched : Bool) (entries : List String) :
    matchesListFrom s matched entries = matchesListFrom t matched entries := by
  induction entries generalizing matched with
  | nil => rfl
  | cons entry entries ih =>
      rw [matchesListFrom, matchesListFrom]
      cases excluded? entry with
      | none =>
          show matchesListFrom s (matched || matchesPattern entry s) entries
            = matchesListFrom t (matched || matchesPattern entry t) entries
          rw [matchesPattern_congr h, ih]
      | some pattern =>
          show (if matchesPattern pattern s then false else matchesListFrom s matched entries)
            = if matchesPattern pattern t then false else matchesListFrom t matched entries
          rw [matchesPattern_congr h, ih]

/-- A pattern list, exclusions included, cannot tell the texts apart. -/
theorem matchesList_congr (h : SameButCase s t) (entries : List String) :
    matchesList entries s = matchesList entries t :=
  matchesListFrom_congr h false entries

end Pattern

namespace Template

variable {letter : Char} {a b : String}

theorem foldedUnits_pair (h : SameButCase a b) (c : Char) :
    foldedUnits (pair [(letter, a)] c) = foldedUnits (pair [(letter, b)] c) := by
  rw [pair, pair]
  by_cases hpercent : c = '%'
  · rw [if_pos hpercent, if_pos hpercent]
  · rw [if_neg hpercent, if_neg hpercent, value?, value?]
    by_cases hunit : c.toNat < 0x10000
    · rw [if_pos hunit, if_pos hunit, List.lookup_cons, List.lookup_cons]
      cases c == letter with
      | true => exact h
      | false => rfl
    · rw [if_neg hunit, if_neg hunit]

theorem foldedUnits_expandChars (h : SameButCase a b) (template : List Char) :
    foldedUnits (expandChars [(letter, a)] template)
      = foldedUnits (expandChars [(letter, b)] template) := by
  induction template using expandChars.induct with
  | case1 => rfl
  | case2 => rfl
  | case3 c rest ih =>
      rw [expandChars, expandChars, foldedUnits_append, foldedUnits_append,
        foldedUnits_pair h, ih]
  | case4 c rest hlone hpair ih =>
      rw [expandChars, expandChars, foldedUnits_cons, ih, ← foldedUnits_cons]
      all_goals assumption

/-- What is put into a template shows in the text as it is, so its letter case does. -/
theorem sameButCase_expand (h : SameButCase a b) (template : String) :
    SameButCase (expand [(letter, a)] template) (expand [(letter, b)] template) := by
  rw [SameButCase, expand, expand, String.toList_ofList, String.toList_ofList]
  exact foldedUnits_expandChars h template.toList

end Template

/-! ## The walk through the stanzas -/

/-- One subject under two spellings of its host. -/
structure Subject.SameButCase (x y : Subject) : Prop where
  host : Text.SameButCase x.host y.host
  env : x.env = y.env
  user : x.user = y.user

namespace Resolution

variable {x y : Subject}

/-- The host name is the alias, or a template into which the alias is put. -/
theorem sameButCase_hostName (h : x.SameButCase y) (s : Resolution) :
    Text.SameButCase (s.hostName x) (s.hostName y) := by
  rw [hostName, hostName]
  cases s.get? "hostname" with
  | none => exact h.host
  | some configured => exact Template.sameButCase_expand h.host configured

theorem user_congr (h : x.SameButCase y) (s : Resolution) : s.user x = s.user y := by
  rw [user, user, h.user, h.env]

/-- No criterion, negated or not, tells the spellings apart. -/
theorem criterionHolds_sameButCase (h : x.SameButCase y) (s : Resolution) (c : Condition) :
    criterionHolds x s c = criterionHolds y s c := by
  rw [criterionHolds, criterionHolds]
  cases c.criterion with
  | host =>
      show (Pattern.matchesList _ _ != _) = (Pattern.matchesList _ _ != _)
      rw [Pattern.matchesList_congr (sameButCase_hostName h s)]
  | originalHost =>
      show (Pattern.matchesList _ _ != _) = (Pattern.matchesList _ _ != _)
      rw [Pattern.matchesList_congr h.host]
  | user =>
      show (Pattern.matchesList _ _ != _) = (Pattern.matchesList _ _ != _)
      rw [user_congr h]
  | localUser =>
      show (Pattern.matchesList _ _ != _) = (Pattern.matchesList _ _ != _)
      rw [h.env]
  | all => rfl
  | exec => rfl
  | canonical => rfl
  | final => rfl

theorem conditionsHold_congr (h : x.SameButCase y) (s : Resolution) (cs : List Condition) :
    conditionsHold x s cs = conditionsHold y s cs := by
  induction cs generalizing s with
  | nil => rfl
  | cons c cs ih =>
      rw [conditionsHold, conditionsHold, criterionHolds_sameButCase h, ih]

theorem applies_congr (h : x.SameButCase y) (s : Resolution) (stanza : Stanza) :
    applies x s stanza = applies y s stanza := by
  rw [applies, applies]
  cases stanza.criteria with
  | global => rfl
  | host patterns =>
      show (Pattern.matchesList patterns x.host, s) = (Pattern.matchesList patterns y.host, s)
      rw [Pattern.matchesList_congr h.host]
  | matching conditions => exact conditionsHold_congr h s conditions

theorem visit_congr (h : x.SameButCase y) (s : Resolution) (stanza : Stanza) :
    visit x s stanza = visit y s stanza := by
  rw [visit, visit, applies_congr h]

/-- **Both spellings lead to one state**, notes on what was passed over included. -/
theorem walk_congr (h : x.SameButCase y) (stanzas : List Stanza) :
    walk x stanzas = walk y stanzas := by
  rw [walk, walk, funext fun s => funext (visit_congr h s)]

end Resolution

/-! ## Settings -/

namespace Settings

/-- The settings are the same but for the places that spell the host out: the host name may
    differ in letter case, and paths may have the host put into them. -/
structure SameButCase (r r' : Settings) : Prop where
  options : r.options = r'.options
  matched : r.matched = r'.matched
  port : r.port = r'.port
  user : r.user = r'.user
  proxyCommand : r.proxyCommand = r'.proxyCommand
  proxyJump : r.proxyJump = r'.proxyJump
  hostName : Text.SameButCase r.hostName r'.hostName

theorem sameButCase_settings {x y : Subject} (h : x.SameButCase y) (s : Resolution) :
    (s.settings x).SameButCase (s.settings y) where
  options := rfl
  matched := rfl
  port := rfl
  user := Resolution.user_congr h s
  proxyCommand := rfl
  proxyJump := rfl
  hostName := Resolution.sameButCase_hostName h s

/-- **The letter case of an alias changes no setting.** Two spellings of an alias are both
    refused, each under its own name, or both get settings; and these are the same but for
    the letter case of the host name. -/
theorem resolve_sameButCase (config : Config) (env : Environment) (query : Query)
    {a b : String} (h : Text.SameButCase a b) :
    ((resolve config env query a).value = .error (.unknownHost a)
        ∧ (resolve config env query b).value = .error (.unknownHost b))
      ∨ ∃ r r', (resolve config env query a).value = .ok r
          ∧ (resolve config env query b).value = .ok r' ∧ r.SameButCase r' := by
  have hsubject : Subject.SameButCase ⟨a, env, query.user⟩ ⟨b, env, query.user⟩ := ⟨h, rfl, rfl⟩
  rw [value_resolve, value_resolve, find, find]
  rw [Resolution.walk_congr hsubject]
  split
  · exact Or.inl ⟨rfl, rfl⟩
  · exact Or.inr ⟨_, _, rfl, rfl, sameButCase_settings hsubject _⟩

/-- A Host line meets both spellings, the host name is made of the alias, and a Match line
    looks at the host name. -/
theorem resolve_sameButCase_matched :
    Text.SameButCase "Web" "wEB" ∧ ∃ r r' : Settings,
      (resolve ⟨[⟨.host ["web"], ⟨none, 1⟩,
            [⟨"hostname", "HostName", "%h.lan", ["%h.lan"], ⟨none, 2⟩⟩]⟩,
          ⟨.matching [⟨.host, false, ["WEB.LAN"]⟩], ⟨none, 3⟩,
            [⟨"user", "User", "x", ["x"], ⟨none, 4⟩⟩]⟩], []⟩
        ⟨"/h", "u", "w", "/h/c"⟩ ⟨none, true⟩ "Web").value = .ok r
      ∧ r.hostName = "Web.lan" ∧ r.user = "x"
      ∧ r'.hostName = "wEB.lan" ∧ r.SameButCase r' := by
  have hcase : Text.SameButCase "Web" "wEB" := by decide +kernel
  refine ⟨hcase, ?_⟩
  rcases resolve_sameButCase
      ⟨[⟨.host ["web"], ⟨none, 1⟩,
          [⟨"hostname", "HostName", "%h.lan", ["%h.lan"], ⟨none, 2⟩⟩]⟩,
        ⟨.matching [⟨.host, false, ["WEB.LAN"]⟩], ⟨none, 3⟩,
          [⟨"user", "User", "x", ["x"], ⟨none, 4⟩⟩]⟩], []⟩
      ⟨"/h", "u", "w", "/h/c"⟩ ⟨none, true⟩ hcase with ⟨hrefused, -⟩ | ⟨r, r', hr, hr', hsame⟩
  · exact nomatch hrefused
  · have hfirst := Except.ok.inj hr
    have hsecond := Except.ok.inj hr'
    refine ⟨r, r', hr, ?_, ?_, ?_, hsame⟩
    · rw [← hfirst]
      decide +kernel
    · rw [← hfirst]
      decide +kernel
    · rw [← hsecond]
      decide +kernel

end Settings

end SshDial

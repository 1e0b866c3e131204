import SshDial.Proofs.Settings.Precedence
import SshDial.Proofs.Text.Letters

/-! # Rivals — one proxy keyword at most

    A proxy command and a jump chain keep each other out.  Of all the entries of a state
    those under either keyword are one or none, and the first directive for either of them
    settles which: `Resolution.rivals_set_of_nil` is the step, `Resolution.rivals_foldl_of_nil`
    the run.
    `Settings.proxy_of_find` reads off it what the settings of a host say, the word that
    switches a proxy off included. -/

namespace SshDial

open SshDial.Text

namespace Resolution

variable {s : Resolution} {d : Directive} {key value : String}

/-- Is the keyword one of the two that keep each other out? -/
def isRival (key : String) : Bool := (rival? key).isSome

/-- The entries under the two keywords. -/
def rivals (options : List (String × String)) : List (String × String) :=
  options.filter (isRival ·.1)

theorem isRival_iff : isRival key = true ↔ key = "proxycommand" ∨ key = "proxyjump" := by
  rw [isRival, rival?]
  split
  · rename_i hcommand
    exact iff_of_true rfl (Or.inl hcommand)
  · rename_i hcommand
    split
    · rename_i hjump
      exact iff_of_true rfl (Or.inr hjump)
    · rename_i hjump
      exact iff_of_false Bool.false_ne_true (not_or.mpr ⟨hcommand, hjump⟩)

theorem isSome_get?_iff : (s.get? key).isSome = true ↔ ∃ entry ∈ s.options, entry.1 = key := by
  rw [get?, List.lookup_isSome_iff]
  refine exists_congr fun entry => and_congr_right fun _ => ?_
  rw [beq_iff_eq, eq_comm]

/-- What is found under one of the two keywords is found among their entries. -/
theorem get?_of_isRival (h : isRival key = true) : s.get? key = (rivals s.options).lookup key :=
  (lookup_filter_keys h s.options).symm

/-- Each of the two is barred as soon as there is an entry of either. -/
theorem isBarred_iff_of_isRival (h : isRival key = true) :
    s.isBarred key = true ↔ rivals s.options ≠ [] := by
  have hsome : rivals s.options ≠ [] ↔ ∃ entry ∈ s.options, isRival entry.1 = true := by
    constructor
    · intro hne
      obtain ⟨entry, hentry⟩ := List.exists_mem_of_ne_nil _ hne
      exact ⟨entry, List.mem_filter.mp hentry⟩
    · rintro ⟨entry, hentry⟩
      exact List.ne_nil_of_mem (List.mem_filter.mpr hentry)
  have heither : s.isBarred key = true
      ↔ (s.get? "proxycommand").isSome = true ∨ (s.get? "proxyjump").isSome = true := by
    rcases isRival_iff.mp h with rfl | rfl
    · exact Bool.or_eq_true_iff
    · exact Bool.or_eq_true_iff.trans or_comm
  rw [heither, isSome_get?_iff, isSome_get?_iff, hsome, ← exists_or]
  refine exists_congr fun entry => ?_
  rw [isRival_iff, ← and_or_left]

/-- An entry under either keyword stays, and stays the only one. -/
theorem rivals_set_of_ne_nil (h : rivals s.options ≠ []) (d : Directive) :
    rivals (s.set d).options = rivals s.options := by
  rw [set]
  dsimp only
  split
  · rfl
  · rename_i hfree
    have hkey : ¬ isRival d.key = true := fun hkey => hfree ((isBarred_iff_of_isRival hkey).mpr h)
    rw [rivals, List.filter_append, List.filter_cons, if_neg hkey]
    exact List.append_nil _

/-- Where there is none, a directive for either keyword makes one. -/
theorem rivals_set_of_nil (h : rivals s.options = []) (d : Directive) :
    rivals (s.set d).options = if isRival d.key then [(d.key, d.value)] else [] := by
  rw [set]
  dsimp only
  by_cases hkey : isRival d.key = true
  · have hfree : ¬ s.isBarred d.key = true := fun hb => (isBarred_iff_of_isRival hkey).mp hb h
    rw [if_neg hfree, if_pos hkey, rivals, List.filter_append, ← rivals, h, List.filter_cons,
      if_pos hkey]
    rfl
  · rw [if_neg hkey]
    split
    · exact h
    · rw [rivals, List.filter_append, ← rivals, h, List.filter_cons, if_neg hkey]
      rfl

theorem rivals_foldl_of_ne_nil (h : rivals s.options ≠ []) (ds : List Directive) :
    rivals (ds.foldl set s).options = rivals s.options := by
  induction ds generalizing s with
  | nil => rfl
  | cons d ds ih =>
      have hset := rivals_set_of_ne_nil h d
      rw [List.foldl_cons, ih (hset ▸ h), hset]

/-- **The first directive for either keyword settles both**: what follows it has no say. -/
theorem rivals_foldl_of_nil (h : rivals s.options = []) (ds : List Directive) :
    rivals (ds.foldl set s).options
      = (ds.find? (isRival ·.key)).toList.map fun d => (d.key, d.value) := by
  induction ds generalizing s with
  | nil => exact h
  | cons d ds ih =>
      have hset := rivals_set_of_nil h d
      rw [List.foldl_cons, List.find?_cons]
      cases hkey : isRival d.key with
      | true =>
          rw [if_pos hkey] at hset
          rw [rivals_foldl_of_ne_nil (hset ▸ List.cons_ne_nil _ _), hset]
          rfl
      | false =>
          rw [if_neg (Bool.eq_false_iff.mp hkey)] at hset
          exact ih hset

/-- A value switches its keyword off if it is the word `none` in any letter case. -/
theorem isNone_iff : isNone value = true ↔ value.toLower = "none" := by
  have hplain : ∀ x ∈ ['n', 'o', 'n', 'e'], x ≠ 'k' ∧ x.toNat < 128 := by
    intro x hx
    simp only [List.mem_cons, List.not_mem_nil, or_false] at hx
    rcases hx with rfl | rfl | rfl | rfl
    all_goals decide
  have hlower : value.toLower = value.map Char.toLower := rfl
  rw [isNone, beq_iff_eq, lower, hlower, ← String.toList_inj, ← String.toList_inj,
    String.toList_ofList, String.toList_map]
  exact map_lowerChar_eq_iff hplain _

/-! ## What the settings say -/

/-- The directive that settles the two keywords for a host: the first for either among
    those of the stanzas that apply. -/
def proxyDirective? (subject : Subject) (stanzas : List Stanza) : Option Directive :=
  (inForce subject start stanzas).find? (isRival ·.key)

theorem rivals_walk (subject : Subject) (stanzas : List Stanza) :
    rivals (walk subject stanzas).options
      = (proxyDirective? subject stanzas).toList.map fun d => (d.key, d.value) := by
  have hstart : rivals start.options = [] := rfl
  rw [walk, options_foldl_visit, rivals_foldl_of_nil hstart]
  rfl

theorem get?_walk_of_isRival (h : isRival key = true) (subject : Subject)
    (stanzas : List Stanza) :
    (walk subject stanzas).get? key = some value
      ↔ ∃ d, proxyDirective? subject stanzas = some d ∧ d.key = key ∧ d.value = value := by
  rw [get?_of_isRival h, rivals_walk]
  cases proxyDirective? subject stanzas with
  | none => exact iff_of_false nofun nofun
  | some d =>
      show List.lookup key [(d.key, d.value)] = some value ↔ _
      rw [List.lookup_cons, List.lookup_nil]
      constructor
      · intro hfound
        split at hfound
        · rename_i hkey
          exact ⟨d, rfl, (beq_iff_eq.mp hkey).symm, Option.some.inj hfound⟩
        · exact nomatch hfound
      · rintro ⟨_, hd, rfl, rfl⟩
        obtain rfl := Option.some.inj hd
        rw [beq_self_eq_true]

end Resolution

namespace Settings

open Resolution

variable {c : Config} {env : Environment} {query : Query} {host : String} {r : Settings}

/-- **One proxy keyword at most, and the first directive decides.** Among the directives of
    the stanzas that apply to a host, the first one for either proxy keyword is the only
    one that leaves an option; the field of its keyword holds its value unless that is
    `none` in any letter case, and the other field is empty. -/
theorem proxy_of_find (h : find c env query host = .ok r) :
    let first := proxyDirective? ⟨host, env, query.user⟩ c.stanzas
    rivals r.options = first.toList.map (fun d => (d.key, d.value))
      ∧ (∀ value, r.proxyCommand = some value ↔
          ∃ d, first = some d ∧ d.key = "proxycommand" ∧ d.value = value
            ∧ value.toLower ≠ "none")
      ∧ (∀ value, r.proxyJump = some value ↔
          ∃ d, first = some d ∧ d.key = "proxyjump" ∧ d.value = value
            ∧ value.toLower ≠ "none")
      ∧ ¬ ("proxycommand" ∈ r.options.map (·.1) ∧ "proxyjump" ∈ r.options.map (·.1))
      ∧ (r.proxyCommand = none ∨ r.proxyJump = none) := by
  intro first
  obtain rfl := settings_walk_of_find h
  generalize hs : walk ⟨host, env, query.user⟩ c.stanzas = s
  have hrivals : rivals s.options = first.toList.map fun d => (d.key, d.value) := by
    rw [← hs, rivals_walk]
  have hfield : ∀ key, isRival key = true → ∀ value,
      (s.get? key).filter (!isNone ·) = some value ↔
        ∃ d, first = some d ∧ d.key = key ∧ d.value = value ∧ value.toLower ≠ "none" := by
    intro key hkey value
    rw [Option.filter_eq_some_iff, ← hs, get?_walk_of_isRival hkey, Bool.not_eq_true',
      ← Bool.not_eq_true, isNone_iff, ← exists_and_right]
    refine exists_congr fun d => ?_
    rw [and_assoc, and_assoc]
  have hkey : ∀ key ∈ s.options.map (·.1), isRival key = true →
      ∃ d, first = some d ∧ d.key = key := by
    intro key hmem hrival
    obtain ⟨entry, hentry, rfl⟩ := List.mem_map.mp hmem
    have hamong : entry ∈ rivals s.options := List.mem_filter.mpr ⟨hentry, hrival⟩
    rw [hrivals, List.mem_map] at hamong
    obtain ⟨d, hd, rfl⟩ := hamong
    exact ⟨d, Option.mem_toList.mp hd, rfl⟩
  -- One directive has one keyword.
  have hone : ∀ d d' : Directive, first = some d → first = some d' →
      d.key = "proxycommand" → d'.key ≠ "proxyjump" := by
    intro d d' hd hd' hcommand hjump
    obtain rfl := Option.some.inj (hd.symm.trans hd')
    exact absurd (hcommand.symm.trans hjump) (by decide)
  refine ⟨hrivals, hfield "proxycommand" rfl, hfield "proxyjump" rfl, ?_, ?_⟩
  · rintro ⟨hin, hin'⟩
    obtain ⟨d, hd, hdkey⟩ := hkey _ hin rfl
    obtain ⟨d', hd', hdkey'⟩ := hkey _ hin' rfl
    exact hone d d' hd hd' hdkey hdkey'
  · show (s.get? "proxycommand").filter (!isNone ·) = none
      ∨ (s.get? "proxyjump").filter (!isNone ·) = none
    cases hcommand : (s.get? "proxycommand").filter (!isNone ·) with
    | none => exact Or.inl rfl
    | some value =>
        obtain ⟨d, hd, hdkey, -⟩ := (hfield "proxycommand" rfl value).mp hcommand
        refine Or.inr (Option.eq_none_iff_forall_ne_some.mpr fun value' hjump => ?_)
        obtain ⟨d', hd', hdkey', -⟩ := (hfield "proxyjump" rfl value').mp hjump
        exact hone d d' hd hd' hdkey hdkey'

/-- The first stanza switches jump chains off, and so no later command has a chance. -/
theorem proxy_of_find_off :
    ∃ r, find ⟨[⟨.host ["web"], ⟨none, 1⟩,
            [⟨"proxyjump", "ProxyJump", "NonE", ["NonE"], ⟨none, 2⟩⟩]⟩,
          ⟨.host ["*"], ⟨none, 3⟩,
            [⟨"proxycommand", "ProxyCommand", "nc %h %p", ["nc %h %p"], ⟨none, 4⟩⟩]⟩], []⟩
        ⟨"/h", "u", "w", "/h/c"⟩ {} "web" = .ok r
      ∧ rivals r.options = [("proxyjump", "NonE")]
      ∧ r.proxyCommand = none ∧ r.proxyJump = none := by
  have hfind : find ⟨[⟨.host ["web"], ⟨none, 1⟩,
          [⟨"proxyjump", "ProxyJump", "NonE", ["NonE"], ⟨none, 2⟩⟩]⟩,
        ⟨.host ["*"], ⟨none, 3⟩,
          [⟨"proxycommand", "ProxyCommand", "nc %h %p", ["nc %h %p"], ⟨none, 4⟩⟩]⟩], []⟩
      ⟨"/h", "u", "w", "/h/c"⟩ {} "web"
      = .ok ⟨"web", "web", 22, "u", [], [], none, none, [("proxyjump", "NonE")], true⟩ :=
    congrArg Except.ok (by decide +kernel)
  obtain ⟨hrivals, -⟩ := proxy_of_find hfind
  have hfirst : proxyDirective? ⟨"web", ⟨"/h", "u", "w", "/h/c"⟩, none⟩
      [⟨.host ["web"], ⟨none, 1⟩,
          [⟨"proxyjump", "ProxyJump", "NonE", ["NonE"], ⟨none, 2⟩⟩]⟩,
        ⟨.host ["*"], ⟨none, 3⟩,
          [⟨"proxycommand", "ProxyCommand", "nc %h %p", ["nc %h %p"], ⟨none, 4⟩⟩]⟩]
      = some ⟨"proxyjump", "ProxyJump", "NonE", ["NonE"], ⟨none, 2⟩⟩ := by decide +kernel
  rw [hfirst] at hrivals
  exact ⟨_, hfind, hrivals, rfl, rfl⟩

end Settings

end SshDial

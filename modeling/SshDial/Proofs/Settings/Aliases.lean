import SshDial.Proofs.Pattern.Glob
import SshDial.Proofs.Settings.Paths

/-! # Aliases — the hosts that a configuration names

    Which patterns of the Host lines are aliases is read off their signs, and which hosts
    they stand for is found out by matching.  The two agree because every pattern globs its
    own text (`Pattern.globs_self`): an alias is met by each stanza that names it, unless
    the stanza excludes it as well (`Stanza.matchesList_iff_of_mem`).  So the settings of an
    alias can be refused only if every stanza that names it also excludes it
    (`Config.aliases_resolve`). -/

namespace SshDial

namespace Pattern

/-- A unit of a pattern can stand for itself, be it a sign or not. -/
theorem fits_self (u : Nat) : Fits u [u] := by
  by_cases hstar : u = '*'.toNat
  · rw [hstar]
    exact .run _
  · by_cases hquestion : u = '?'.toNat
    · rw [hquestion]
      exact .any _
    · exact .like hstar hquestion rfl

/-- Every pattern globs its own text. -/
theorem globs_self (pattern : String) : Globs pattern pattern := by
  refine ⟨(Text.units pattern.toList).map ([·]), ?_, ?_⟩
  · rw [List.forall₂_map_right_iff, List.forall₂_same]
    exact fun u _ => fits_self u
  · rw [← List.flatMap_def]
    exact List.flatMap_singleton' _

end Pattern

/-! ## What a Host line holds -/

/-- The patterns of a Host stanza. -/
def Stanza.hostPatterns (s : Stanza) : List String :=
  match s.criteria with
  | .host patterns => patterns
  | _ => []

/-- The Host line holds an exclusion that globs the host. -/
def Stanza.Excludes (s : Stanza) (host : String) : Prop :=
  ∃ e ∈ s.hostPatterns, ∃ pattern : String,
    e.toList = '!' :: pattern.toList ∧ Pattern.Globs pattern host

/-- All patterns of the Host lines, in the order of the text. -/
def Config.hostPatterns (c : Config) : List String := c.stanzas.flatMap Stanza.hostPatterns

namespace Stanza

variable {s : Stanza} {pattern host : String}

theorem criteria_of_mem_hostPatterns (h : pattern ∈ s.hostPatterns) :
    s.criteria = .host s.hostPatterns := by
  rw [hostPatterns] at h ⊢
  split at h
  · rename_i patterns heq
    exact heq
  · exact nomatch h

/-- A host that is named as it is written is met exactly if it is not excluded as well. -/
theorem matchesList_iff_of_mem (h : host ∈ s.hostPatterns) (hsign : host.toList.head? ≠ some '!') :
    Pattern.matchesList s.hostPatterns host = true ↔ ¬s.Excludes host := by
  rw [(Pattern.matchesList_globs s.hostPatterns host).1]
  constructor
  · rintro ⟨-, hnone⟩ ⟨e, he, pattern, htext, hglobs⟩
    exact hnone e he pattern htext hglobs
  · intro hnot
    refine ⟨⟨host, h, hsign, Pattern.globs_self host⟩, ?_⟩
    intro e he pattern htext hglobs
    exact hnot ⟨e, he, pattern, htext, hglobs⟩

end Stanza

/-! ## What is listed -/

namespace Config

theorem isAlias_iff {pattern : String} :
    isAlias pattern = true
      ↔ '*' ∉ pattern.toList ∧ '?' ∉ pattern.toList ∧ '!' ∉ pattern.toList := by
  rw [isAlias, List.all_eq_true]
  constructor
  · intro h
    refine ⟨fun hmem => ?_, fun hmem => ?_, fun hmem => ?_⟩
    · exact absurd (h _ hmem) (by decide)
    · exact absurd (h _ hmem) (by decide)
    · exact absurd (h _ hmem) (by decide)
  · rintro ⟨hstar, hquestion, hexclude⟩ c hc
    rw [Bool.and_eq_true, Bool.and_eq_true, bne_iff_ne, bne_iff_ne, bne_iff_ne]
    exact ⟨⟨ne_of_mem_of_not_mem hc hstar, ne_of_mem_of_not_mem hc hquestion⟩,
      ne_of_mem_of_not_mem hc hexclude⟩

theorem stanzaAliases_eq (s : Stanza) : stanzaAliases s = s.hostPatterns.filter isAlias := by
  rw [stanzaAliases, Stanza.hostPatterns]
  cases s.criteria with
  | host patterns => rfl
  | «global» => rfl
  | matching conditions => rfl

theorem aliases_eq (c : Config) : c.aliases = (c.hostPatterns.filter isAlias).eraseDups := by
  rw [aliases, funext stanzaAliases_eq, hostPatterns, List.filter_flatMap]

/-- What a selection leaves of a list, each text once, follows the order of first
    occurrence in the whole list. -/
theorem pairwise_eraseDups_filter (p : String → Bool) (l : List String) :
    (l.filter p).eraseDups.Pairwise fun a b => l.idxOf a < l.idxOf b := by
  have hmem : ∀ {m : List String} {a : String}, a ∈ (m.filter p).eraseDups → a ∈ m :=
    fun h => (List.mem_filter.mp (List.mem_eraseDups.mp h)).1
  induction l using List.reverseRecOn with
  | nil => exact .nil
  | append_singleton l x ih =>
      -- Nothing that has occurred before moves when the list grows at its end.
      have hold : (l.filter p).eraseDups.Pairwise
          fun a b => (l ++ [x]).idxOf a < (l ++ [x]).idxOf b := by
        refine ih.imp_of_mem fun ha hb hlt => ?_
        rw [List.idxOf_append_of_mem (hmem ha), List.idxOf_append_of_mem (hmem hb)]
        exact hlt
      rw [List.filter_append, List.filter_singleton]
      by_cases hx : p x = true
      · rw [hx, cond_true, Resolution.eraseDups_concat]
        by_cases hseen : x ∈ (l.filter p).eraseDups
        · rw [Resolution.insertNew_of_mem hseen]
          exact hold
        · have hfresh : x ∉ l := fun hxl =>
            hseen (List.mem_eraseDups.mpr (List.mem_filter.mpr ⟨hxl, hx⟩))
          rw [Resolution.insertNew_of_not_mem hseen]
          refine List.pairwise_append.mpr ⟨hold, List.pairwise_singleton _ _, ?_⟩
          intro a ha b hb
          rw [List.mem_singleton.mp hb, List.idxOf_append_of_mem (hmem ha),
            List.idxOf_append_of_notMem hfresh]
          exact Nat.lt_add_right _ (List.idxOf_lt_length_of_mem (hmem ha))
      · rw [Bool.not_eq_true] at hx
        rw [hx, cond_false, List.append_nil]
        exact hold

end Config

/-! ## What an alias resolves to -/

/-- A host that some Host line names and does not exclude is met on every walk, whatever
    has been set before. -/
theorem Resolution.matched_of_named (subject : Subject) {stanzas : List Stanza} {s : Stanza}
    (hs : s ∈ stanzas) (hnamed : subject.host ∈ s.hostPatterns)
    (hsign : subject.host.toList.head? ≠ some '!') (hnot : ¬s.Excludes subject.host) :
    (enterAll subject start stanzas).matched = true := by
  obtain ⟨before, after, rfl⟩ := List.append_of_mem hs
  have hcriteria := Stanza.criteria_of_mem_hostPatterns hnamed
  have hmeets : ∀ t : Resolution, meets subject t s.criteria = true := by
    intro t
    rw [hcriteria]
    exact (Stanza.matchesList_iff_of_mem hnamed hsign).mpr hnot
  rw [enterAll_append]
  refine matched_enterAll subject after ?_
  rw [matched_enter, hmeets, hcriteria]
  exact Bool.or_true _

namespace Config

/-- **The aliases are the plain Host patterns, and each of them can be asked for.** A pattern
    without signs is listed once, in the place of its first occurrence; and whoever asks for
    the settings of an alias gets settings with a stanza that applies, even if one has to,
    unless every stanza that names the alias excludes it as well. -/
theorem aliases_resolve (c : Config) :
    (∀ a, a ∈ c.aliases
      ↔ a ∈ c.hostPatterns ∧ '*' ∉ a.toList ∧ '?' ∉ a.toList ∧ '!' ∉ a.toList)
    ∧ c.aliases.Nodup
    ∧ (c.aliases.Pairwise fun a b => c.hostPatterns.idxOf a < c.hostPatterns.idxOf b)
    ∧ ∀ a ∈ c.aliases,
        (∀ s ∈ c.stanzas, a ∈ s.hostPatterns → s.Excludes a)
        ∨ ∀ env query, ∃ r, (Settings.resolve c env query a).value = .ok r ∧ r.matched = true := by
  have hlisted : ∀ a, a ∈ c.aliases
      ↔ a ∈ c.hostPatterns ∧ '*' ∉ a.toList ∧ '?' ∉ a.toList ∧ '!' ∉ a.toList := by
    intro a
    rw [aliases_eq, List.mem_eraseDups, List.mem_filter, isAlias_iff]
  refine ⟨hlisted, ?_, ?_, ?_⟩
  · rw [aliases_eq]
    exact Resolution.nodup_eraseDups _
  · rw [aliases_eq]
    exact pairwise_eraseDups_filter isAlias c.hostPatterns
  · intro a ha
    obtain ⟨-, -, -, hexclude⟩ := (hlisted a).mp ha
    have hsign : a.toList.head? ≠ some '!' := fun h => hexclude (List.mem_of_head? h)
    refine or_iff_not_imp_left.mpr fun hnot env query => ?_
    push Not at hnot
    obtain ⟨s, hs, hnamed, hfree⟩ := hnot
    have hmatched := Resolution.matched_of_named ⟨a, env, query.user⟩ hs hnamed hsign hfree
    have hfind := Settings.find_eq_verdict c ⟨a, env, query.user⟩ query.requireMatch
    rw [Resolution.verdict, hmatched, Bool.not_true, Bool.and_false] at hfind
    exact ⟨_, (Settings.value_resolve c env query a).trans hfind, hmatched⟩

/-- One stanza excludes the alias, in other letters, and a later one does not; and an alias
    that its only stanza excludes is refused. -/
theorem aliases_resolve_web :
    ∃ c : Config,
      c.stanzas.map Stanza.hostPatterns = [["web", "old", "!W?b", "!o*"], ["db?", "web"]]
      ∧ c.aliases = ["web", "old"]
      ∧ (∃ r, (Settings.resolve c ⟨"/h", "u", "w", "/h/c"⟩ ⟨some "me", true⟩ "web").value = .ok r
          ∧ r.matched = true)
      ∧ (Settings.resolve c ⟨"/h", "u", "w", "/h/c"⟩ ⟨some "me", true⟩ "old").value
        = .error (.unknownHost "old") := by
  have hlisted : (⟨[⟨.host ["web", "old", "!W?b", "!o*"], ⟨none, 1⟩, []⟩,
      ⟨.host ["db?", "web"], ⟨none, 2⟩, []⟩], []⟩ : Config).aliases = ["web", "old"] := by
    decide +kernel
  refine ⟨_, rfl, hlisted, ?_, rfl⟩
  have hweb := hlisted.symm ▸ List.mem_cons_self
  rcases (aliases_resolve _).2.2.2 "web" hweb with hall | hfound
  · obtain ⟨e, he, pattern, htext, -⟩ := hall ⟨.host ["db?", "web"], ⟨none, 2⟩, []⟩
      (List.mem_cons_of_mem _ List.mem_cons_self) (List.mem_cons_of_mem _ List.mem_cons_self)
    have hplain : ∀ e ∈ ["db?", "web"], e.toList.head? ≠ some '!' := by decide
    exact absurd (htext ▸ rfl) (hplain e he)
  · exact hfound ⟨"/h", "u", "w", "/h/c"⟩ ⟨some "me", true⟩

end Config

end SshDial

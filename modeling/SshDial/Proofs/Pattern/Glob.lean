import Mathlib.Data.List.Forall2
import SshDial.Proofs.Pattern.Expression

/-! # Globs — what host patterns and pattern lists stand for

    `Pattern.Globs` says what a pattern stands for without saying how that is found out: the
    candidate is cut into stretches, one for each unit of the pattern.  Both the table and the
    expression find out just that (`Pattern.matchesPattern_iff_globs`), and a list of patterns
    is matched if one of its plain entries globs the candidate and none of its exclusions does,
    wherever and however often they stand in it (`Pattern.matchesList_globs`). -/

namespace SshDial

open SshDial.Text

namespace Pattern

/-! ## Patterns -/

/-- What a unit of a pattern can stand for: `*` for any stretch, `?` for any one unit, and all
    the others for one unit that is equal up to letter case. -/
inductive Fits : Nat → List Nat → Prop where
  | run (stretch : List Nat) : Fits '*'.toNat stretch
  | any (v : Nat) : Fits '?'.toNat [v]
  | like {u v : Nat} : u ≠ '*'.toNat → u ≠ '?'.toNat → fold u = fold v → Fits u [v]

/-- The candidate is cut into consecutive stretches, one for each unit of the pattern. -/
def Globs (pattern candidate : String) : Prop :=
  ∃ stretches, List.Forall₂ Fits (units pattern.toList) stretches
    ∧ stretches.flatten = units candidate.toList

/-- The first piece takes a stretch that its unit fits. -/
theorem matches_piece_iff {u : Nat} {ps : List (Wildcard Pattern.Unit)} {s : List Nat} :
    Wildcard.Matches Unit.ok (piece u :: ps) s
      ↔ ∃ stretch rest, Fits u stretch ∧ Wildcard.Matches Unit.ok ps rest
        ∧ stretch ++ rest = s := by
  rw [piece]
  split_ifs with hstar hquestion
  · subst hstar
    rw [Wildcard.matches_run_iff]
    constructor
    · rintro ⟨k, -, h⟩
      exact ⟨s.take k, s.drop k, .run _, h, List.take_append_drop k s⟩
    · rintro ⟨stretch, rest, -, h, rfl⟩
      refine ⟨stretch.length, ?_, ?_⟩
      · rw [List.length_append]
        exact Nat.le_add_right _ _
      · rwa [List.drop_left]
  · subst hquestion
    rw [Wildcard.matches_one_iff]
    constructor
    · rintro ⟨v, t, rfl, -, h⟩
      exact ⟨[v], t, .any v, h, rfl⟩
    · rintro ⟨stretch, rest, hfits, h, rfl⟩
      cases hfits with
      | any v => exact ⟨v, rest, rfl, rfl, h⟩
      | like _ hne => exact absurd rfl hne
  · rw [Wildcard.matches_one_iff]
    constructor
    · rintro ⟨v, t, rfl, hok, h⟩
      exact ⟨[v], t, .like hstar hquestion (beq_iff_eq.mp hok), h, rfl⟩
    · rintro ⟨stretch, rest, hfits, h, rfl⟩
      cases hfits with
      | run => exact absurd rfl hstar
      | any => exact absurd rfl hquestion
      | @like _ v _ _ hfold => exact ⟨v, rest, rfl, beq_iff_eq.mpr hfold, h⟩

theorem matches_pieces_iff (p s : List Nat) :
    Wildcard.Matches Unit.ok (p.map piece) s
      ↔ ∃ stretches, List.Forall₂ Fits p stretches ∧ stretches.flatten = s := by
  induction p generalizing s with
  | nil =>
      rw [List.map_nil, Wildcard.matches_nil_iff]
      constructor
      · rintro rfl
        exact ⟨[], .nil, rfl⟩
      · rintro ⟨_, ⟨⟩, rfl⟩
        rfl
  | cons u p ih =>
      rw [List.map_cons, matches_piece_iff]
      constructor
      · rintro ⟨stretch, rest, hfits, h, rfl⟩
        obtain ⟨stretches, hall, rfl⟩ := (ih rest).mp h
        exact ⟨stretch :: stretches, .cons hfits hall, rfl⟩
      · rintro ⟨_, hall, rfl⟩
        cases hall with
        | @cons _ stretch _ stretches hfits hall =>
            exact ⟨stretch, stretches.flatten, hfits, (ih _).mpr ⟨stretches, hall, rfl⟩, rfl⟩

/-- **A pattern matches what it globs.** -/
theorem matchesPattern_iff_globs (pattern candidate : String) :
    matchesPattern pattern candidate = true ↔ Globs pattern candidate := by
  rw [matchesPattern_iff, pieces, matches_pieces_iff, Globs]

/-! ## Lists of patterns -/

theorem excluded?_eq_some_iff {entry pattern : String} :
    excluded? entry = some pattern ↔ entry.toList = '!' :: pattern.toList := by
  unfold excluded?
  split
  · rename_i rest heq
    rw [heq, Option.some.injEq, List.cons.injEq, and_iff_right rfl]
    constructor
    · rintro rfl
      exact String.toList_ofList.symm
    · rintro rfl
      exact String.ofList_toList
  · rename_i hne
    exact iff_of_false nofun fun heq => hne _ heq

theorem excluded?_eq_none_iff {entry : String} :
    excluded? entry = none ↔ entry.toList.head? ≠ some '!' := by
  unfold excluded?
  split
  · rename_i rest heq
    rw [heq]
    exact iff_of_false nofun fun hne => hne rfl
  · rename_i hne
    refine iff_of_true rfl fun hhead => ?_
    obtain ⟨rest, heq⟩ := List.head?_eq_some_iff.mp hhead
    exact hne rest heq

/-- **A list of patterns is matched by what one of its entries globs and none of its
    exclusions does**, whatever the order of the entries and however often each is given; and
    the expression that a pattern is rewritten into says the same of every candidate. -/
theorem matchesList_globs (entries : List String) (candidate : String) :
    (matchesList entries candidate = true
      ↔ (∃ e ∈ entries, e.toList.head? ≠ some '!' ∧ Globs e candidate)
        ∧ ∀ e ∈ entries, ∀ pattern, e.toList = '!' :: pattern.toList → ¬Globs pattern candidate)
    ∧ (∀ entries', (∀ e, e ∈ entries' ↔ e ∈ entries) →
        matchesList entries' candidate = matchesList entries candidate)
    ∧ ∀ pattern, (matchesPattern pattern candidate = true ↔ Globs pattern candidate)
        ∧ matchesByExpression pattern candidate = some (matchesPattern pattern candidate) := by
  refine ⟨?_, ?_, fun pattern =>
    ⟨matchesPattern_iff_globs pattern candidate, matchesByExpression_eq pattern candidate⟩⟩
  · simp only [matchesList_iff, excluded?_eq_none_iff, excluded?_eq_some_iff,
      matchesPattern_iff_globs, ← Bool.not_eq_true]
  · intro entries' hsame
    rw [Bool.eq_iff_iff, matchesList_iff, matchesList_iff]
    simp only [hsame]

example : matchesList ["web?.*", "!*.test"] "WEB1.b.c" = true := by decide

end Pattern

end SshDial

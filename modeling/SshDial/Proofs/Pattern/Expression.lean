import SshDial.Pattern
import SshDial.Proofs.Regex

/-! # Pattern expressions — read as they were written, followed as the pattern is

    A host pattern is rewritten into the text of a regular expression by three replacements,
    one over the result of the other.  None of them touches what another one has put in
    (`Pattern.expression_eq`), so the text is read as one part for each unit of the pattern
    (`Pattern.ofUnitsWith?_expression`).  The places to which these parts lead are the places
    to which the pieces of the pattern lead (`Pattern.reach_partsOf`), and so the expression
    decides what the table decides (`Pattern.matchesByExpression_eq`). -/

namespace SshDial

open SshDial.Text

namespace Wildcard

variable {κ : Type} {ok : κ → Nat → Bool} {ps : List (Wildcard κ)} {kind : κ} {s : List Nat}

/-! ## The cuttings of a text, by the first piece -/

theorem matches_nil_iff : Matches ok [] s ↔ s = [] := by
  constructor
  · rintro ⟨⟩
    rfl
  · rintro rfl
    exact .nil

theorem matches_run_iff :
    Matches ok (.run :: ps) s ↔ ∃ k ≤ s.length, Matches ok ps (s.drop k) := by
  constructor
  · rintro ⟨⟩
    rename_i skipped s h
    refine ⟨skipped.length, ?_, ?_⟩
    · rw [List.length_append]
      exact Nat.le_add_right _ _
    · rwa [List.drop_left]
  · rintro ⟨k, -, h⟩
    rw [← List.take_append_drop k s]
    exact .run _ h

theorem matches_one_iff :
    Matches ok (.one kind :: ps) s ↔ ∃ u t, s = u :: t ∧ ok kind u = true ∧ Matches ok ps t := by
  constructor
  · rintro ⟨⟩
    exact ⟨_, _, rfl, ‹_›, ‹_›⟩
  · rintro ⟨u, t, rfl, hu, h⟩
    exact .one hu h

end Wildcard

namespace Pattern

/-! ## The text of the expression -/

section Text

variable {c : Char} {others s : List Nat} {u : Nat}

/-- A replacement leaves alone what it does not look for. -/
theorem replaced_of_not_mem (h : c.toNat ∉ s) : replaced c others s = s := by
  induction s with
  | nil => rfl
  | cons u s ih =>
      obtain ⟨hu, hs⟩ := not_or.mp (List.mem_cons.not.mp h)
      rw [replaced, List.flatMap_cons, if_neg (Ne.symm hu), ← replaced, ih hs]
      rfl

/-- What the replacements make of one unit. -/
def written (u : Nat) : List Nat :=
  if u = '*'.toNat then ['.'.toNat, '*'.toNat]
  else if u = '?'.toNat then ['.'.toNat]
  else if u ∈ specials then ['\\'.toNat, u]
  else [u]

theorem replaced_escaped (u : Nat) :
    replaced '?' ['.'.toNat] (replaced '*' ['.'.toNat, '*'.toNat] (escaped [u])) = written u := by
  by_cases hstar : u = '*'.toNat
  · rw [hstar]
    decide
  by_cases hquestion : u = '?'.toNat
  · rw [hquestion]
    decide
  have hescaped : escaped [u] = if u ∈ specials then ['\\'.toNat, u] else [u] :=
    List.flatMap_singleton ..
  have hkept : ∀ d : Char, '\\'.toNat ≠ d.toNat → u ≠ d.toNat → d.toNat ∉ escaped [u] := by
    intro d hback hu
    rw [hescaped]
    split
    · exact List.not_mem_cons_of_ne_of_not_mem hback.symm (mt List.mem_singleton.mp hu.symm)
    · exact mt List.mem_singleton.mp hu.symm
  rw [replaced_of_not_mem (hkept '*' (by decide) hstar),
    replaced_of_not_mem (hkept '?' (by decide) hquestion), hescaped, written, if_neg hstar,
    if_neg hquestion]

/-- **The replacements do not disturb one another.** -/
theorem expression_eq (pattern : String) :
    expression pattern
      = '^'.toNat :: (units pattern.toList).flatMap written ++ ['$'.toNat] := by
  have hall : replaced '?' ['.'.toNat]
      (replaced '*' ['.'.toNat, '*'.toNat] (escaped (units pattern.toList)))
      = (units pattern.toList).flatMap written := by
    rw [← funext replaced_escaped]
    simp only [escaped, replaced, List.flatMap_assoc, List.flatMap_singleton]
  rw [expression, hall]

end Text

/-! ## How the text is read -/

/-- The units that one unit of the pattern may stand for, letter case aside. -/
def setOf : Pattern.Unit → UnitSet
  | .any => .all
  | .like u => .single u

/-- The part of the expression for one piece of the pattern. -/
def part : Wildcard Pattern.Unit → Regex
  | .run => .rounds 0 none true (.one .all)
  | .one kind => .one (setOf kind)

/-- The parts one after the other, up to the end of the text. -/
def partsOf : List (Wildcard Pattern.Unit) → Regex
  | [] => .both .atEnd .empty
  | p :: ps => .both (part p) (partsOf ps)

section Reading

variable {names : List (Option (List Nat))} {groups fuel u : Nat} {rest s : List Nat}

/-- What stands for itself in patterns and is no sign of expressions. -/
theorem not_mem_signs (hstar : u ≠ '*'.toNat) (hquestion : u ≠ '?'.toNat) (h : u ∉ specials) :
    u ∉ Regex.signs := by
  have hsigns : ∀ v ∈ Regex.signs, v ∈ '*'.toNat :: '?'.toNat :: specials := by decide
  intro hu
  rcases List.mem_cons.mp (hsigns u hu) with rfl | hu
  · exact hstar rfl
  rcases List.mem_cons.mp hu with rfl | hu
  · exact hquestion rfl
  · exact h hu

/-- What has been written does not ask to repeat what stands before it. -/
theorem isUnrepeated_written (s : List Nat) :
    Regex.IsUnrepeated (s.flatMap written ++ ['$'.toNat]) := by
  cases s with
  | nil =>
      rintro _ ⟨⟩
      decide
  | cons u s =>
      intro v hv
      rw [List.flatMap_cons, written] at hv
      split_ifs at hv with hstar hquestion hspecial <;> obtain rfl := Option.some.inj hv
      · decide
      · decide
      · decide
      · have hsigns : ∀ w ∈ ['*', '+', '?', '{'].map Char.toNat, w ∈ Regex.signs := by decide
        exact fun hv => not_mem_signs hstar hquestion hspecial (hsigns _ hv)

/-- What has been written does not end an alternative. -/
theorem head_written (u : Nat) (rest : List Nat) :
    ∃ v more, written u ++ rest = v :: more
      ∧ (Regex.isSign v '|' || Regex.isSign v ')') = false := by
  rw [written]
  split_ifs with hstar hquestion hspecial
  · exact ⟨_, _, rfl, by decide⟩
  · exact ⟨_, _, rfl, by decide⟩
  · exact ⟨_, _, rfl, by decide⟩
  · have hne : ∀ c : Char, c.toNat ∈ specials → u ≠ c.toNat := fun c hc heq =>
      hspecial (heq ▸ hc)
    refine ⟨u, rest, rfl, ?_⟩
    rw [Bool.or_eq_false_iff, Regex.isSign, Regex.isSign, beq_eq_false_iff_ne, beq_eq_false_iff_ne]
    exact ⟨hne '|' (by decide), hne ')' (by decide)⟩

theorem readPiece_special (h : u ∈ specials) :
    Regex.readPiece names .all (fuel + 1) ⟨'\\'.toNat :: u :: rest, groups⟩
      = Regex.finished groups (.one (.single u)) rest := by
  simp only [specials, List.map_cons, List.map_nil, List.mem_cons, List.not_mem_nil, or_false] at h
  rcases h with rfl | rfl | rfl | rfl | rfl | rfl | rfl | rfl | rfl | rfl | rfl | rfl <;> rfl

/-- What has been written for a unit is read as its part. -/
theorem readPiece_written (h : Regex.IsUnrepeated rest) :
    Regex.readPiece names .all (fuel + 1) ⟨written u ++ rest, groups⟩
      = some (part (piece u), ⟨rest, groups⟩) := by
  rw [written, piece]
  split_ifs with hstar hquestion hspecial
  · show Regex.readPiece names .all (fuel + 1) ⟨'.'.toNat :: '*'.toNat :: rest, groups⟩ = _
    rw [Regex.readPiece_dot, Regex.finished, Regex.repeated_star h]
    rfl
  · show Regex.readPiece names .all (fuel + 1) ⟨'.'.toNat :: rest, groups⟩ = _
    rw [Regex.readPiece_dot, Regex.finished_of_isUnrepeated h]
    rfl
  · show Regex.readPiece names .all (fuel + 1) ⟨'\\'.toNat :: u :: rest, groups⟩ = _
    rw [readPiece_special hspecial, Regex.finished_of_isUnrepeated h]
    rfl
  · show Regex.readPiece names .all (fuel + 1) ⟨u :: rest, groups⟩ = _
    rw [Regex.readPiece_of_not_mem_signs (not_mem_signs hstar hquestion hspecial),
      Regex.finished_of_isUnrepeated h]
    rfl

/-- Every unit takes one reading of a piece, and so does the end. -/
theorem readSequence_written (s : List Nat) (h : s.length + 2 ≤ fuel) :
    Regex.readSequence names .all fuel ⟨s.flatMap written ++ ['$'.toNat], groups⟩
      = some (partsOf (s.map piece), ⟨[], groups⟩) := by
  induction s generalizing fuel with
  | nil =>
      obtain ⟨fuel, rfl⟩ := Nat.exists_eq_add_of_le' h
      rfl
  | cons u s ih =>
      obtain ⟨fuel, rfl⟩ := Nat.exists_eq_add_of_le' h
      have hpiece : Regex.readPiece names .all (fuel + s.length + 2)
          ⟨written u ++ (s.flatMap written ++ ['$'.toNat]), groups⟩ = _ :=
        readPiece_written (isUnrepeated_written s)
      obtain ⟨v, more, htext, hv⟩ := head_written u (s.flatMap written ++ ['$'.toNat])
      rw [htext] at hpiece
      rw [List.flatMap_cons, List.append_assoc, htext]
      exact (Regex.readSequence_piece hv hpiece).trans (by rw [ih (by omega)]; rfl)

theorem refersBack_partsOf (ps : List (Wildcard Pattern.Unit)) :
    (partsOf ps).refersBack = false := by
  induction ps with
  | nil => rfl
  | cons p ps ih =>
      have hpart : (part p).refersBack = false := by
        rcases p with _ | (_ | _) <;> rfl
      rw [partsOf, Regex.refersBack, hpart, ih]
      rfl

theorem withoutGroups_partsOf (ps : List (Wildcard Pattern.Unit)) :
    (partsOf ps).withoutGroups = partsOf ps := by
  induction ps with
  | nil => rfl
  | cons p ps ih =>
      have hpart : (part p).withoutGroups = part p := by
        rcases p with _ | (_ | _) <;> rfl
      rw [partsOf, Regex.withoutGroups, hpart, ih]

/-- Each unit is written with at least one. -/
theorem length_le_flatMap_written (s : List Nat) : s.length ≤ (s.flatMap written).length := by
  induction s with
  | nil => exact Nat.le_refl 0
  | cons u s ih =>
      obtain ⟨v, more, hwritten, -⟩ := head_written u []
      rw [List.append_nil] at hwritten
      rw [List.flatMap_cons, hwritten, List.length_append, List.length_cons, List.length_cons]
      omega

theorem readEither_written (s : List Nat) (h : s.length + 4 ≤ fuel) :
    Regex.readEither names .all fuel ⟨'^'.toNat :: s.flatMap written ++ ['$'.toNat], groups⟩
      = some (.both .atStart (partsOf (s.map piece)), ⟨[], groups⟩) := by
  obtain ⟨fuel, rfl⟩ := Nat.exists_eq_add_of_le' h
  have hstart : Regex.readPiece names .all (fuel + s.length + 2)
      ⟨'^'.toNat :: (s.flatMap written ++ ['$'.toNat]), groups⟩
      = some (.atStart, ⟨s.flatMap written ++ ['$'.toNat], groups⟩) := rfl
  have hsequence := Regex.readSequence_piece (by decide) hstart
  rw [readSequence_written s (by omega), Option.map_some] at hsequence
  show Regex.readEither names .all (fuel + s.length + 3 + 1) _ = _
  rw [Regex.readEither, List.cons_append, hsequence]
  rfl

/-- **The expression for a pattern is read as a part for each of its units.** -/
theorem ofUnitsWith?_expression (pattern : String) :
    Regex.ofUnitsWith? .all (expression pattern)
      = some (.both .atStart (partsOf (pieces pattern))) := by
  have hfuel : (units pattern.toList).length + 4 ≤ 4 * ((expression pattern).length + 1) := by
    have hlength := length_le_flatMap_written (units pattern.toList)
    rw [expression_eq, List.length_append, List.length_cons]
    omega
  have hread : ∀ names, Regex.readEither names .all (4 * ((expression pattern).length + 1))
      ⟨expression pattern, 0⟩ = some (.both .atStart (partsOf (pieces pattern)), ⟨[], 0⟩) := by
    intro names
    have hwritten := @readEither_written names 0 _ _ hfuel
    rwa [← expression_eq] at hwritten
  have hback : (Regex.both .atStart (partsOf (pieces pattern))).refersBack = false := by
    rw [Regex.refersBack, refersBack_partsOf]
    rfl
  rw [Regex.ofUnitsWith?, hread]
  dsimp only
  rw [hback, Regex.withoutGroups, withoutGroups_partsOf]
  rfl

end Reading

/-! ## Where the expression leads -/

open Regex (Place)

theorem drop_eq_cons_iff {s t : List Nat} {k v : Nat} :
    s.drop k = v :: t ↔ s[k]? = some v ∧ s.drop (k + 1) = t := by
  constructor
  · intro h
    rw [← List.head?_drop, ← List.tail_drop, h]
    exact ⟨rfl, rfl⟩
  · rintro ⟨hv, rfl⟩
    obtain ⟨hlt, rfl⟩ := List.getElem?_eq_some_iff.mp hv
    exact List.drop_eq_getElem_cons hlt

/-- Folding both sides compares up to letter case. -/
theorem contains_setOf (kind : Pattern.Unit) (v : Nat) :
    (setOf kind).folded.contains (fold v) = Unit.ok kind v := by
  cases kind with
  | any => rfl
  | like u =>
      have hfolded : (UnitSet.single u).folded = .single (fold u) := by
        simp [UnitSet.single, UnitSet.folded]
      rw [setOf, hfolded, Bool.eq_iff_iff, UnitSet.contains_single, Unit.ok, beq_iff_eq, eq_comm]

section Candidate

variable {candidate : List Nat} {ps : List (Wildcard Pattern.Unit)} {here : List Place}

/-- The rest of the pattern matches the candidate from the place on. -/
def MatchesFrom (candidate : List Nat) (ps : List (Wildcard Pattern.Unit)) (p : Place) : Prop :=
  p.position ≤ candidate.length ∧ Wildcard.Matches Unit.ok ps (candidate.drop p.position)

theorem exists_matchesFrom_run :
    (∃ q ∈ Regex.reach (candidate.map fold).toArray (part .run).folded here,
        MatchesFrom candidate ps q)
      ↔ ∃ p ∈ here, MatchesFrom candidate (.run :: ps) p := by
  constructor
  · rintro ⟨q, hq, hle, hmatch⟩
    obtain ⟨p, hp, k, -, rfl⟩ := Regex.mem_reach_rounds.mp hq
    have hmoved : p.position + k ≤ candidate.length := hle
    refine ⟨p, hp, by omega, Wildcard.matches_run_iff.mpr ⟨k, ?_, ?_⟩⟩
    · rw [List.length_drop]
      omega
    · rwa [List.drop_drop]
  · rintro ⟨p, hp, hle, hmatch⟩
    obtain ⟨k, hk, hmatch⟩ := Wildcard.matches_run_iff.mp hmatch
    rw [List.length_drop] at hk
    rw [List.drop_drop] at hmatch
    have hmoved : p.position + k ≤ candidate.length := by omega
    refine ⟨p.moved k, Regex.mem_reach_rounds.mpr ⟨p, hp, k, .inr ?_, rfl⟩, hmoved, hmatch⟩
    rwa [List.size_toArray, List.length_map]

theorem exists_matchesFrom_one {kind : Pattern.Unit} :
    (∃ q ∈ Regex.reach (candidate.map fold).toArray (part (.one kind)).folded here,
        MatchesFrom candidate ps q)
      ↔ ∃ p ∈ here, MatchesFrom candidate (.one kind :: ps) p := by
  constructor
  · rintro ⟨q, hq, hle, hmatch⟩
    obtain ⟨p, hp, u, hu, hset, rfl⟩ := Regex.mem_reach_one.mp hq
    rw [List.getElem?_toArray, List.getElem?_map, Option.map_eq_some_iff] at hu
    obtain ⟨v, hv, rfl⟩ := hu
    rw [contains_setOf] at hset
    exact ⟨p, hp, Nat.le_of_succ_le hle, Wildcard.matches_one_iff.mpr
      ⟨v, _, drop_eq_cons_iff.mpr ⟨hv, rfl⟩, hset, hmatch⟩⟩
  · rintro ⟨p, hp, -, hmatch⟩
    obtain ⟨v, t, hdrop, hok, hmatch⟩ := Wildcard.matches_one_iff.mp hmatch
    obtain ⟨hv, rfl⟩ := drop_eq_cons_iff.mp hdrop
    have hset : (setOf kind).folded.contains (fold v) = true := (contains_setOf kind v).trans hok
    refine ⟨p.moved 1, Regex.mem_reach_one.mpr ⟨p, hp, fold v, ?_, hset, rfl⟩, ?_, hmatch⟩
    · rw [List.getElem?_toArray, List.getElem?_map, hv]
      rfl
    · obtain ⟨hlt, -⟩ := List.getElem?_eq_some_iff.mp hv
      exact hlt

/-- **The parts lead on from a place if the pieces match the candidate from there on.** -/
theorem reach_partsOf (ps : List (Wildcard Pattern.Unit)) (here : List Place) :
    Regex.reach (candidate.map fold).toArray (partsOf ps).folded here ≠ []
      ↔ ∃ p ∈ here, MatchesFrom candidate ps p := by
  induction ps generalizing here with
  | nil =>
      show here.filter (·.position == (candidate.map fold).toArray.size) ≠ [] ↔ _
      rw [Ne, List.filter_eq_nil_iff, List.size_toArray, List.length_map]
      push Not
      refine exists_congr fun p => and_congr_right fun _ => ?_
      rw [MatchesFrom, Wildcard.matches_nil_iff, List.drop_eq_nil_iff, beq_iff_eq]
      omega
  | cons piece ps ih =>
      show Regex.reach _ (partsOf ps).folded (Regex.reach _ (part piece).folded here) ≠ [] ↔ _
      rw [ih]
      cases piece with
      | run => exact exists_matchesFrom_run
      | one kind => exact exists_matchesFrom_one

end Candidate

theorem matchesFolded_partsOf (pattern candidate : String) :
    (Regex.both .atStart (partsOf (pieces pattern))).matchesFolded candidate
      = matchesPattern pattern candidate := by
  rw [Bool.eq_iff_iff, matchesPattern_iff, Regex.matchesFolded, Bool.not_eq_true',
    List.isEmpty_eq_false_iff]
  show Regex.reach _ (partsOf (pieces pattern)).folded
    (List.filter (fun p => p.position == 0) _) ≠ [] ↔ _
  rw [reach_partsOf]
  constructor
  · rintro ⟨p, hp, -, hmatch⟩
    rwa [beq_iff_eq.mp (List.mem_filter.mp hp).2, List.drop_zero] at hmatch
  · intro hmatch
    refine ⟨⟨0, []⟩, List.mem_filter.mpr ⟨?_, rfl⟩, Nat.zero_le _, hmatch⟩
    exact List.mem_map.mpr ⟨0, List.mem_range.mpr (Nat.succ_pos _), rfl⟩

/-- **The expression decides what the table decides.** -/
theorem matchesByExpression_eq (pattern candidate : String) :
    matchesByExpression pattern candidate = some (matchesPattern pattern candidate) := by
  rw [matchesByExpression]
  split_ifs with hstar
  · have hall : Wildcard.Matches Unit.ok [.run] (units candidate.toList ++ []) :=
      .run _ .nil
    rw [List.append_nil] at hall
    rw [hstar, (matchesPattern_iff "*" candidate).mpr hall]
  · rw [ofUnitsWith?_expression, Option.map_some, matchesFolded_partsOf]

end Pattern

end SshDial

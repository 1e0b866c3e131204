import Mathlib.Data.List.Basic
import SshDial.Regex.Read

/-! # Regular expressions — one sign read, one part followed

    What the reader makes of a single unit that stands for itself, of the dot, and of the star
    behind it; and where a single unit, or a run of any units, leads from a place. -/

namespace SshDial

namespace Regex

/-! ## Reading -/

section Reading

variable {names : List (Option (List Nat))} {dot : UnitSet} {groups fuel u : Nat}
  {rest : List Nat} {r : Regex}

theorem eq_toNat_of_sign {c : Char} (h : sign u = some c) : u = c.toNat := by
  rw [sign] at h
  split at h
  · rename_i hu
    have hvalid : u.isValidChar := .inl (by omega)
    rw [← Option.some.inj h, Char.ofNat, dif_pos hvalid]
    rfl
  · exact nomatch h

/-- No repetition stands here. -/
def IsUnrepeated (s : List Nat) : Prop := ∀ u ∈ s.head?, u ∉ ['*', '+', '?', '{'].map Char.toNat

theorem repeated_of_isUnrepeated (h : IsUnrepeated rest) (r : Regex) :
    repeated r rest = some (r, rest) := by
  have hnone : readRepetition rest = none := by
    cases rest with
    | nil => rfl
    | cons u rest =>
        have hsign : ∀ c, sign u = some c → c.toNat ∉ ['*', '+', '?', '{'].map Char.toNat :=
          fun c hc => eq_toNat_of_sign hc ▸ h u rfl
        unfold readRepetition
        dsimp only
        split
        case h_5 => rfl
        all_goals
          rename_i hc
          exact absurd (by decide) (hsign _ hc)
  rw [repeated, hnone]

/-- A star asks for any number of rounds; a question mark behind it would ask for few. -/
theorem repeated_star (h : IsUnrepeated rest) (r : Regex) :
    repeated r ('*'.toNat :: rest) = some (.rounds 0 none true r, rest) := by
  cases rest with
  | nil => rfl
  | cons u rest =>
      have hu : ¬isSign u '?' = true := by
        rw [isSign, beq_iff_eq]
        rintro rfl
        exact h _ rfl (by decide)
      exact if_neg hu

/-- The units that do not always stand for themselves. -/
def signs : List Nat :=
  ['^', '$', '.', '[', '*', '+', '?', '{', '(', '\\'].map Char.toNat

/-- The part that a piece comes to, with the repetition after it. -/
def finished (groups : Nat) (r : Regex) (units : List Nat) : Option (Regex × Rest) :=
  (repeated r units).map fun (r, units) => (r, ⟨units, groups⟩)

theorem finished_of_isUnrepeated (h : IsUnrepeated rest) (r : Regex) :
    finished groups r rest = some (r, ⟨rest, groups⟩) := by
  rw [finished, repeated_of_isUnrepeated h, Option.map_some]

theorem readPiece_dot :
    readPiece names dot (fuel + 1) ⟨'.'.toNat :: rest, groups⟩
      = finished groups (.one dot) rest := rfl

theorem readPiece_of_not_mem_signs (h : u ∉ signs) :
    readPiece names dot (fuel + 1) ⟨u :: rest, groups⟩
      = finished groups (.one (.single u)) rest := by
  have hsign : ∀ c, sign u = some c → c.toNat ∉ signs := fun c hc => eq_toNat_of_sign hc ▸ h
  unfold readPiece
  dsimp only
  split
  case h_11 => rfl
  all_goals
    rename_i hc
    exact absurd (by decide) (hsign _ hc)

/-- A piece is read, and then the ones after it. -/
theorem readSequence_piece {after : Rest}
    (hu : (isSign u '|' || isSign u ')') = false)
    (h : readPiece names dot fuel ⟨u :: rest, groups⟩ = some (r, after)) :
    readSequence names dot (fuel + 1) ⟨u :: rest, groups⟩
      = (readSequence names dot fuel after).map fun (more, s) => (.both r more, s) := by
  rw [readSequence]
  dsimp only
  rw [hu, if_neg Bool.false_ne_true, h, Option.bind_eq_bind, Option.bind_some]
  cases readSequence names dot fuel after <;> rfl

end Reading

/-! ## Following -/

section Following

variable {text : Array Nat} {p q : Place} {seen here : List Place} {set : UnitSet}

/-- The place so many units further on. -/
def Place.moved (k : Nat) (p : Place) : Place := { p with position := p.position + k }

theorem Place.moved_moved (j k : Nat) (p : Place) : (p.moved j).moved k = p.moved (j + k) := by
  rw [moved, moved, moved, Nat.add_assoc]

theorem mem_reach_one :
    q ∈ reach text (.one set) here
      ↔ ∃ p ∈ here, ∃ u, text[p.position]? = some u ∧ set.contains u = true ∧ p.moved 1 = q := by
  rw [reach, List.mem_filterMap]
  refine exists_congr fun p => and_congr_right fun _ => ?_
  cases text[p.position]? with
  | none => exact iff_of_false nofun nofun
  | some u =>
      show (if set.contains u = true then some (p.moved 1) else none) = some q ↔ _
      simp

theorem reach_all (text : Array Nat) (p : Place) :
    reach text (.one .all) [p] = if p.position < text.size then [p.moved 1] else [] := by
  rw [reach, List.filterMap_cons, List.filterMap_nil]
  split_ifs with hp
  · rw [Array.getElem?_eq_getElem hp]
    rfl
  · rw [Array.getElem?_eq_none (Nat.le_of_not_lt hp)]

/-- The laps over any units reach one place after the other, up to the end of the text. -/
theorem mem_laps_all (hseen : ∀ r ∈ seen, r.position ≤ p.position) (n : Nat) :
    q ∈ (laps (reach text (.one .all)) n seen [p]).flatten
      ↔ ∃ k < n, p.position + k < text.size ∧ p.moved (k + 1) = q := by
  induction n generalizing p seen with
  | zero => exact iff_of_false nofun nofun
  | succ n ih =>
      rw [laps, reach_all]
      split_ifs with hp
      · have hfresh : p.moved 1 ∉ seen := fun hmem =>
          absurd (hseen _ hmem) (Nat.not_le_of_lt (Nat.lt_succ_self _))
        have hseen' : ∀ r ∈ seen ++ [p.moved 1], r.position ≤ (p.moved 1).position := by
          rw [List.forall_mem_append, List.forall_mem_singleton]
          exact ⟨fun r hr => Nat.le_succ_of_le (hseen r hr), Nat.le_refl _⟩
        rw [List.filter_cons_of_pos (by simpa using hfresh), List.filter_nil]
        show q ∈ [p.moved 1] ++ (laps _ n (seen ++ [p.moved 1]) [p.moved 1]).flatten ↔ _
        rw [List.mem_append, List.mem_singleton, ih hseen', Nat.exists_lt_succ_left]
        refine or_congr ?_ (exists_congr fun k => and_congr_right fun _ => ?_)
        · exact ⟨fun hq => ⟨hp, hq.symm⟩, fun hq => hq.2.symm⟩
        · rw [Place.moved_moved, Nat.add_comm 1 (k + 1), Place.moved, Nat.add_assoc,
            Nat.add_comm 1 k]
      · refine iff_of_false nofun ?_
        rintro ⟨k, -, hk, -⟩
        omega

/-- Any number of rounds over any units leads to every place from there on. -/
theorem mem_reach_rounds :
    q ∈ reach text (.rounds 0 none true (.one .all)) here
      ↔ ∃ p ∈ here, ∃ k, (k = 0 ∨ p.position + k ≤ text.size) ∧ p.moved k = q := by
  rw [reach, List.mem_eraseDups, List.mem_flatMap]
  refine exists_congr fun p => and_congr_right fun _ => ?_
  have hseen : ∀ r ∈ [p], r.position ≤ p.position := by simp
  have hall : ∀ laps : List (List Place), q ∈ ([p] :: laps).reverse.flatten
      ↔ p = q ∨ q ∈ laps.flatten := by
    intro laps
    rw [List.mem_flatten, exists_congr fun _ => and_congr_left' List.mem_reverse,
      ← List.mem_flatten, List.flatten_cons, List.mem_append, List.mem_singleton, eq_comm]
  show q ∈ ([p] :: laps _ (text.size + 1) [p] [p]).reverse.flatten ↔ _
  rw [hall, mem_laps_all hseen]
  constructor
  · rintro (rfl | ⟨k, -, hk, rfl⟩)
    · exact ⟨0, .inl rfl, rfl⟩
    · exact ⟨k + 1, .inr hk, rfl⟩
  · rintro ⟨k, hk, rfl⟩
    cases k with
    | zero => exact .inl rfl
    | succ k => exact .inr ⟨k, by omega, by omega, rfl⟩

end Following

end Regex

end SshDial

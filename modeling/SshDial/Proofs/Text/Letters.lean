import SshDial.Text.Blank
import SshDial.Text.Keyword

/-! # Letters — which characters they are, and their lower case

    Letters and digits are known by their ranges (`isAlpha_iff`, `isAlphanum_iff`), and
    none of them is white space.  Lower case moves an upper-case letter 32 places and
    leaves everything else where it is (`toNat_toLower`).  A comparison without regard to
    case sees one letter more, the Kelvin sign, but no word without a `k` can tell
    (`map_lowerChar_eq_iff`). -/

namespace SshDial.Text

/-! ## Ranges -/

/-- The ranges of the letters. -/
theorem isAlpha_iff {c : Char} : c.isAlpha = true ↔
    65 ≤ c.toNat ∧ c.toNat ≤ 90 ∨ 97 ≤ c.toNat ∧ c.toNat ≤ 122 := by
  have hupper : c.isUpper = decide (65 ≤ c.toNat ∧ c.toNat ≤ 90) := rfl
  have hlower : c.isLower = (decide (97 ≤ c.toNat) && decide (c.toNat ≤ 122)) := rfl
  have halpha : c.isAlpha = (c.isUpper || c.isLower) := rfl
  rw [halpha, hupper, hlower, Bool.or_eq_true, Bool.and_eq_true, decide_eq_true_eq,
    decide_eq_true_eq, decide_eq_true_eq]

/-- The ranges of the letters and digits. -/
theorem isAlphanum_iff {c : Char} : c.isAlphanum = true ↔
    (65 ≤ c.toNat ∧ c.toNat ≤ 90 ∨ 97 ≤ c.toNat ∧ c.toNat ≤ 122)
      ∨ 48 ≤ c.toNat ∧ c.toNat ≤ 57 := by
  rw [Char.isAlphanum, Bool.or_eq_true, isAlpha_iff, Char.isDigit, Bool.and_eq_true,
    decide_eq_true_eq, decide_eq_true_eq]
  exact Iff.rfl

theorem isBlank_of_isAlphanum {c : Char} (h : c.isAlphanum = true) : isBlank c = false := by
  have hranges := isAlphanum_iff.mp h
  rw [isBlank]
  simp only [Bool.or_eq_false_iff, Bool.and_eq_false_iff, decide_eq_false_iff_not,
    beq_eq_false_iff_ne]
  omega

/-! ## Lower case -/

/-- An upper-case letter and its lower case are 32 places apart. -/
theorem toNat_toLower (c : Char) :
    c.toLower.toNat = if 65 ≤ c.toNat ∧ c.toNat ≤ 90 then c.toNat + 32 else c.toNat := by
  unfold Char.toLower
  split
  · rename_i hupper
    obtain ⟨hA, hZ⟩ := hupper
    have hlow : 65 ≤ c.toNat := hA
    have hhigh : c.toNat ≤ 90 := hZ
    have hsum : (c.toNat + 32) % 2 ^ 32 = c.toNat + 32 := Nat.mod_eq_of_lt (by omega)
    rw [if_pos ⟨hlow, hhigh⟩]
    exact hsum
  · rename_i hother
    exact (if_neg hother).symm

/-- What is no upper-case letter has no other lower case. -/
theorem toLower_eq_self {c : Char} (h : ¬(65 ≤ c.toNat ∧ c.toNat ≤ 90)) : c.toLower = c := by
  apply Char.toNat_inj.mp
  rw [toNat_toLower, if_neg h]

/-- Letters stay letters in other letter case, and digits stay as they are. -/
theorem letter_of_toLower_eq {c d : Char} (h : d.toLower = c.toLower) :
    (c.isAlpha = true → d.isAlpha = true) ∧ (c.isAlphanum = true → d.isAlphanum = true) := by
  have hcode := congrArg Char.toNat h
  rw [toNat_toLower, toNat_toLower] at hcode
  rw [isAlpha_iff, isAlpha_iff, isAlphanum_iff, isAlphanum_iff]
  split at hcode
  · omega
  · split at hcode
    · omega
    · omega

/-! ## Comparing without regard to case -/

theorem lowerChar_of_isAlphanum {c : Char} (h : c.isAlphanum = true) :
    lowerChar c = c.toLower := by
  have hranges := isAlphanum_iff.mp h
  exact if_neg (by omega)

theorem lowerChar_eq_iff {c x : Char} (hk : x ≠ 'k') (hascii : x.toNat < 128) :
    lowerChar c = x ↔ c.toLower = x := by
  rw [lowerChar]
  split
  · -- The Kelvin sign is lowered to `k`, or to itself, and neither is the other letter.
    rename_i hkelvin
    obtain rfl : c = Char.ofNat 0x212A := Char.toNat_inj.mp hkelvin
    refine iff_of_false (Ne.symm hk) ?_
    rintro rfl
    exact absurd hascii (by decide)
  · exact Iff.rfl

/-- Only a word with a `k` can tell the two ways of lowering apart. -/
theorem map_lowerChar_eq_iff {word : List Char} (h : ∀ x ∈ word, x ≠ 'k' ∧ x.toNat < 128)
    (s : List Char) : s.map lowerChar = word ↔ s.map Char.toLower = word := by
  induction s generalizing word with
  | nil => exact Iff.rfl
  | cons c s ih =>
      cases word with
      | nil => exact iff_of_false (List.cons_ne_nil _ _) (List.cons_ne_nil _ _)
      | cons x word =>
          obtain ⟨hx, hrest⟩ := List.forall_mem_cons.mp h
          rw [List.map_cons, List.map_cons, List.cons.injEq, List.cons.injEq,
            lowerChar_eq_iff hx.1 hx.2, ih hrest]

end SshDial.Text

import SshDial.Template

/-! # Template — what the value of one letter shows in

    A template is expanded pair by pair, so the value of a letter shows in the text where a
    pair asks for it and nowhere else.  `Template.expand_eq_iff` is the exact form: two
    values of one letter give two texts unless the template never asks for it. -/

namespace SshDial.Template

variable {v w : Values} {letter : Char} {a b : String}

/-- Is there a pair that asks for the letter? -/
def asksFor (letter : Char) : List Char → Bool
  | [] => false
  | ['%'] => false
  | '%' :: c :: rest => c == letter || asksFor letter rest
  | _ :: rest => asksFor letter rest

theorem expandChars_cons {c : Char} (h : c ≠ '%') (s : List Char) :
    expandChars v (c :: s) = c :: expandChars v s := by
  rw [expandChars]
  · rintro rfl
    exact absurd rfl h
  · rintro letter rest rfl
    exact absurd rfl h

theorem pair_congr {c : Char} (h : v.lookup c = w.lookup c) : pair v c = pair w c := by
  rw [pair, pair, value?, value?, h]

theorem pair_of_lookup (hletter : letter ≠ '%') (hunit : letter.toNat < 0x10000)
    (h : v.lookup letter = some a) : pair v letter = a.toList := by
  rw [pair, if_neg hletter, value?, if_pos hunit, h]

/-- The text depends on the values of the letters alone that pairs ask for. -/
theorem expandChars_congr {s : List Char}
    (h : ∀ c, asksFor c s = true → v.lookup c = w.lookup c) :
    expandChars v s = expandChars w s := by
  induction s using expandChars.induct with
  | case1 => rfl
  | case2 => rfl
  | case3 c rest ih =>
      have hrest : ∀ c', asksFor c' rest = true → v.lookup c' = w.lookup c' := by
        intro c' hc'
        refine h c' ?_
        rw [asksFor, hc', Bool.or_true]
      have hc : v.lookup c = w.lookup c := by
        refine h c ?_
        rw [asksFor, beq_self_eq_true, Bool.true_or]
      rw [expandChars, expandChars, pair_congr hc, ih hrest]
  | case4 c rest hlone hpair ih =>
      have hrest : ∀ c', asksFor c' rest = true → v.lookup c' = w.lookup c' := by
        intro c' hc'
        refine h c' ?_
        rw [asksFor, hc']
        all_goals assumption
      rw [expandChars, expandChars, ih hrest]
      all_goals assumption

section OneLetter

variable (hother : ∀ c ≠ letter, v.lookup c = w.lookup c) (hletter : letter ≠ '%')
  (hunit : letter.toNat < 0x10000) (hv : v.lookup letter = some a) (hw : w.lookup letter = some b)

include hother hletter hunit hv hw

/-- A longer value makes no text shorter. -/
theorem length_expandChars_le (hle : a.toList.length ≤ b.toList.length) (s : List Char) :
    (expandChars v s).length ≤ (expandChars w s).length := by
  induction s using expandChars.induct with
  | case1 => exact Nat.le_refl _
  | case2 => exact Nat.le_refl _
  | case3 c rest ih =>
      have hpair : (pair v c).length ≤ (pair w c).length := by
        by_cases hc : c = letter
        · rw [hc, pair_of_lookup hletter hunit hv, pair_of_lookup hletter hunit hw]
          exact hle
        · exact Nat.le_of_eq (congrArg List.length (pair_congr (hother c hc)))
      rw [expandChars, expandChars, List.length_append, List.length_append]
      exact Nat.add_le_add hpair ih
  | case4 c rest hlone hpair ih =>
      rw [expandChars, expandChars]
      · exact Nat.succ_le_succ ih
      all_goals assumption

end OneLetter

/-- What is behind a value cannot make up for its length. -/
theorem eq_of_expandChars_eq (hother : ∀ c ≠ letter, v.lookup c = w.lookup c)
    (hletter : letter ≠ '%') (hunit : letter.toNat < 0x10000) (hv : v.lookup letter = some a)
    (hw : w.lookup letter = some b) {s : List Char} (hs : asksFor letter s = true) (h : expandChars v s = expandChars w s) :
    a = b := by
  have hother' : ∀ c ≠ letter, w.lookup c = v.lookup c := fun c hc => (hother c hc).symm
  induction s using expandChars.induct with
  | case1 => exact nomatch hs
  | case2 => exact nomatch hs
  | case3 c rest ih =>
      rw [expandChars, expandChars] at h
      by_cases hc : c = letter
      · rw [hc, pair_of_lookup hletter hunit hv, pair_of_lookup hletter hunit hw] at h
        have hlength := congrArg List.length h
        rw [List.length_append, List.length_append] at hlength
        have hsame : a.toList.length = b.toList.length := by
          rcases Nat.le_total a.toList.length b.toList.length with hle | hle
          · have := length_expandChars_le hother hletter hunit hv hw hle rest
            omega
          · have := length_expandChars_le hother' hletter hunit hw hv hle rest
            omega
        exact String.toList_inj.mp (List.append_inj_left h hsame)
      · rw [asksFor, beq_false_of_ne hc, Bool.false_or] at hs
        rw [pair_congr (hother c hc)] at h
        exact ih hs (List.append_cancel_left h)
  | case4 c rest hlone hpair ih =>
      rw [asksFor] at hs
      · rw [expandChars, expandChars] at h
        · exact ih hs (List.cons.inj h).2
        all_goals assumption
      all_goals assumption

/-- **The value of a letter shows if the letter is asked for.** -/
theorem expand_eq_iff (hother : ∀ c ≠ letter, v.lookup c = w.lookup c) (hletter : letter ≠ '%')
    (hunit : letter.toNat < 0x10000) (hv : v.lookup letter = some a)
    (hw : w.lookup letter = some b) (template : String) :
    expand v template = expand w template
      ↔ a = b ∨ asksFor letter template.toList = false := by
  rw [expand, expand, String.ofList_inj]
  constructor
  · intro h
    cases hs : asksFor letter template.toList with
    | false => exact Or.inr rfl
    | true => exact Or.inl (eq_of_expandChars_eq hother hletter hunit hv hw hs h)
  · intro h
    refine expandChars_congr fun c hc => ?_
    by_cases hsame : c = letter
    · rcases h with rfl | hs
      · rw [hsame, hv, hw]
      · rw [hsame, hs] at hc
        exact nomatch hc
    · exact hother c hsame

end SshDial.Template

import SshDial.Number.Read
import SshDial.Number.Shortest
import SshDial.Proofs.Text.Trim

/-! # Decimal — what a text of digits is read as

    `Number.read` tries signs, base marks, fractions and exponents.  On a text of decimal
    digits none of this applies, and as long as its value is small enough to be held
    exactly, it is read as that value (`Number.read_digits`).  Natural numbers are written
    in such digits, so they are read back (`Number.read_text_natCast`). -/

namespace SshDial

open SshDial.Text

/-- The value of some decimal digits. -/
def Number.decimalValue (s : List Char) : Nat :=
  s.foldl (fun n c => n * 10 + (c.toNat - '0'.toNat)) 0

namespace Text

theorem toNat_of_isDigit {c : Char} (h : isDigit c = true) : 48 ≤ c.toNat ∧ c.toNat ≤ 57 := by
  rw [isDigit, Char.isDigit, Bool.and_eq_true, decide_eq_true_eq, decide_eq_true_eq] at h
  exact h

theorem isBlank_of_isDigit {c : Char} (h : isDigit c = true) : isBlank c = false := by
  refine isBlank_of_isAlphanum ?_
  rw [Char.isAlphanum, show c.isDigit = true from h, Bool.or_true]

theorem trim_of_not_isBlank {s : List Char} (h : ∀ c ∈ s, isBlank c = false) : trim s = s := by
  by_cases hnil : s = []
  · rw [hnil]
    rfl
  · exact (isSnug_of_forall hnil h).trim_eq

end Text

namespace Number

theorem digitIn_ten {c : Char} (h : isDigit c = true) :
    digitIn 10 c = some (c.toNat - '0'.toNat) := by
  obtain ⟨hlow, hhigh⟩ := toNat_of_isDigit h
  rw [digitIn, if_pos ⟨hlow, hhigh⟩, Option.filter_some, if_pos]
  · rfl
  · rw [decide_eq_true_eq]
    omega

theorem digitsIn_ten {s : List Char} (h : ∀ c ∈ s, isDigit c = true) :
    digitsIn 10 s = some (decimalValue s) := by
  have hfrom : ∀ (s : List Char) (m : Nat), (∀ c ∈ s, isDigit c = true) →
      s.foldl (fun acc c => acc.bind fun n => (digitIn 10 c).map (n * 10 + ·)) (some m)
        = some (s.foldl (fun n c => n * 10 + (c.toNat - '0'.toNat)) m) := by
    intro s
    -- On the digits, from whatever has been read before them.
    induction s with
    | nil => exact fun _ _ => rfl
    | cons c s ih =>
        intro m hs
        rw [List.foldl_cons, List.foldl_cons, Option.bind_some,
          digitIn_ten (hs c List.mem_cons_self)]
        exact ih _ fun c' hc' => hs c' (List.mem_cons_of_mem c hc')
  exact hfrom s 0 h

/-- Small whole numbers are held as they are. -/
theorem nearest_natCast {n : Nat} (h : n ≤ exactBound) : nearest n = ofInt n := by
  rw [nearest, if_pos]
  · rfl
  · exact ⟨rfl, h⟩

theorem ofDecimal_zero {n : Nat} (h : n ≤ exactBound) : ofDecimal n 0 = ofInt n := by
  rw [ofDecimal]
  by_cases hzero : n = 0
  · rw [if_pos hzero, hzero]
    rfl
  · have hlog : n.log2 < 54 := (Nat.log2_lt hzero).mpr (by
      have : exactBound < 2 ^ 54 := by decide
      omega)
    have hunit : (n : Rat) * pow10 0 = n := by
      rw [show pow10 0 = 1 from rfl, Rat.mul_one]
    rw [if_neg hzero, hunit, nearest_natCast h]
    show (if (400 : Int) < (n.log2 : Int) * 30103 / 100000 + 0 then _
      else if (n.log2 : Int) * 30103 / 100000 + 0 < -400 then _ else _) = _
    rw [if_neg (by omega), if_neg (by omega)]

/-- A text of digits is a decimal without fraction and exponent. -/
theorem readDecimal_digits {s : List Char} (hne : s ≠ []) (h : ∀ c ∈ s, isDigit c = true)
    (hvalue : decimalValue s ≤ exactBound) :
    readDecimal s = some (ofInt (decimalValue s)) := by
  have htake := @List.takeWhile_append_of_pos _ isDigit s [] h
  have hdrop := @List.dropWhile_append_of_pos _ isDigit s [] h
  rw [List.takeWhile_nil, List.append_nil] at htake
  rw [List.dropWhile_nil, List.append_nil] at hdrop
  have hempty : s.isEmpty = false := List.isEmpty_eq_false_iff.mpr hne
  rw [readDecimal, htake, hdrop]
  show (if s.isEmpty && true then none
    else (digitsIn 10 (s ++ [])).bind fun significand =>
      (some (0 : Int)).map fun e => ofDecimal significand (e - 0)) = _
  rw [hempty, List.append_nil, digitsIn_ten h]
  show some (ofDecimal (decimalValue s) 0) = _
  rw [ofDecimal_zero hvalue]

/-- **A text of digits is read as their value.** -/
theorem read_digits {text : String} (hne : text.toList ≠ [])
    (h : ∀ c ∈ text.toList, isDigit c = true)
    (hvalue : decimalValue text.toList ≤ exactBound) :
    read text = ofInt (decimalValue text.toList) := by
  have htrim : trim text.toList = text.toList :=
    trim_of_not_isBlank fun c hc => isBlank_of_isDigit (h c hc)
  have hdecimal := readDecimal_digits hne h hvalue
  have hmem : ∀ c, isDigit c = false → c ∉ text.toList := fun c hc hin =>
    absurd (h c hin) (Bool.eq_false_iff.mp hc)
  rw [read, htrim]
  generalize text.toList = s at *
  have hsecond : ∀ {c c' : Char} {t : List Char}, c' ∈ c :: c' :: t := fun {c c' t} =>
    List.mem_cons_of_mem c List.mem_cons_self
  -- A sign would stand first and a base mark second, and neither is a digit.
  split
  · exact absurd rfl hne
  · exact absurd List.mem_cons_self (hmem '-' rfl)
  · exact absurd List.mem_cons_self (hmem '+' rfl)
  · exact absurd hsecond (hmem 'x' rfl)
  · exact absurd hsecond (hmem 'X' rfl)
  · exact absurd hsecond (hmem 'o' rfl)
  · exact absurd hsecond (hmem 'O' rfl)
  · exact absurd hsecond (hmem 'b' rfl)
  · exact absurd hsecond (hmem 'B' rfl)
  · have hword : s ≠ "Infinity".toList := by
      rintro rfl
      exact absurd (by decide) (hmem 'I' rfl)
    rw [readUnsigned, if_neg hword, hdecimal]
    rfl

/-! ## Natural numbers in decimal -/

variable {n : Nat}

theorem text_natCast (h : n ≤ exactBound) : (ofInt n).text = n.repr := by
  have hwhole : ((n : Int) : Rat).den = 1 ∧ ((n : Int) : Rat).num.natAbs ≤ exactBound := ⟨rfl, h⟩
  rw [ofInt, text, if_pos hwhole]
  rfl

theorem toList_repr_ne_nil (n : Nat) : n.repr.toList ≠ [] := by
  rw [Nat.toList_repr]
  exact Nat.toDigits_ne_nil

theorem isDigit_of_mem_repr {c : Char} (h : c ∈ n.repr.toList) : isDigit c = true := by
  rw [Nat.toList_repr] at h
  exact Nat.isDigit_of_mem_toDigits (by decide) (by decide) h

theorem decimalValue_repr (n : Nat) : decimalValue n.repr.toList = n := by
  have hfold := @Nat.ofDigitChars_ten_toDigits n
  rw [Nat.ofDigitChars_eq_foldl] at hfold
  rw [decimalValue, Nat.toList_repr]
  simp only [Nat.mul_comm _ 10]
  exact hfold

/-- **What a natural number is written as reads as the number.** -/
theorem read_text_natCast (h : n ≤ exactBound) : read (ofInt n).text = ofInt n := by
  have hvalue := decimalValue_repr n
  rw [text_natCast h, read_digits (toList_repr_ne_nil n) (fun _ hc => isDigit_of_mem_repr hc)
    (hvalue.symm ▸ h), hvalue]

end Number

end SshDial

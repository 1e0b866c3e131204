import Mathlib.Data.Int.Log
import Mathlib.Data.Rat.Floor
import Mathlib.Tactic.Linarith
import Mathlib.Tactic.Ring
import SshDial.Number.Basic

/-! # Rounding — numbers keep their order when they are rounded

    `Number.rounded` takes a rational to the nearest number of the 64-bit format.  For a
    magnitude it scales by a power of two, the unit in the last place, and rounds to a whole
    number (`Number.roundSize`).

    Within one unit the order is kept because rounding to whole numbers keeps it.  Where the
    unit grows, a power of two stands between the two numbers, and rounding does not cross
    it, for what is a multiple of a unit with at most `2 ^ 53` of them stays as it is
    (`Number.roundSize_grid`).  `Number.rounded_mono` is the result. -/

namespace SshDial

namespace Number

/-! ## Whole numbers -/

theorem abs_roundHalfEven_sub_le (q : Rat) : |(roundHalfEven q : Rat) - q| ≤ 1 / 2 := by
  have hlow : (q.floor : Rat) ≤ q := Rat.floor_le q
  have hhigh : q < q.floor + 1 := by exact_mod_cast Rat.lt_floor_add_one q
  rw [abs_sub_le_iff, roundHalfEven]
  split_ifs with hless hmore heven
  · constructor <;> linarith
  · push_cast
    constructor <;> linarith
  · constructor <;> linarith
  · push_cast
    constructor <;> linarith

theorem roundHalfEven_intCast (n : Int) : roundHalfEven n = n := by
  have hfloor : Rat.floor (n : Rat) = n := Rat.floor_intCast n
  rw [roundHalfEven, hfloor, if_pos]
  rw [sub_self]
  norm_num

/-- Rounded numbers that change places are a whole one apart, which is more than two halves
    unless the numbers are the same. -/
theorem roundHalfEven_mono {x y : Rat} (h : x ≤ y) : roundHalfEven x ≤ roundHalfEven y := by
  by_contra hless
  have hstep : roundHalfEven y + 1 ≤ roundHalfEven x := by omega
  have hstepRat : (roundHalfEven y : Rat) + 1 ≤ roundHalfEven x := by exact_mod_cast hstep
  have hx := abs_le.mp (abs_roundHalfEven_sub_le x)
  have hy := abs_le.mp (abs_roundHalfEven_sub_le y)
  have hsame : x = y := by linarith
  rw [hsame] at hstep
  omega

/-! ## Units -/

theorem pow2_eq (e : Int) : pow2 e = (2 : Rat) ^ e := by
  rw [pow2]
  split
  · rename_i h
    obtain ⟨n, rfl⟩ := Int.eq_ofNat_of_zero_le h
    rw [Int.toNat_natCast, zpow_natCast, Nat.pow_eq]
    push_cast
    rfl
  · rename_i h
    obtain ⟨n, hn⟩ := Int.eq_ofNat_of_zero_le (show 0 ≤ -e by omega)
    obtain rfl : e = -n := by omega
    rw [neg_neg, Int.toNat_natCast, zpow_neg, zpow_natCast, one_div, Nat.pow_eq]
    push_cast
    rfl

theorem pow2_pos (e : Int) : 0 < (2 : Rat) ^ e := zpow_pos (by norm_num) e

/-- The unit in the last place of a magnitude, as a power of two. -/
def unitOf (size : Rat) : Int :=
  if log2Floor size < -1022 then -1074 else log2Floor size - 52

/-- A magnitude rounded to whole units, however large. -/
def roundSize (size : Rat) : Rat := (roundHalfEven (size / 2 ^ unitOf size) : Rat) * 2 ^ unitOf size

variable {x y q : Rat}

theorem log2Floor_spec (h : 0 < q) :
    (2 : Rat) ^ log2Floor q ≤ q ∧ q < (2 : Rat) ^ (log2Floor q + 1) := by
  have hden : (0 : Rat) < q.den := by exact_mod_cast q.den_pos
  have hnum : q.num.natAbs ≠ 0 := Int.natAbs_ne_zero.mpr (Rat.num_ne_zero.mpr h.ne')
  have hvalue : q * q.den = q.num.natAbs := by
    rw [Nat.cast_natAbs, abs_of_nonneg (Rat.num_nonneg.mpr h.le), Rat.mul_den_eq_num]
  have hnumLow : (2 : Rat) ^ q.num.natAbs.log2 ≤ q.num.natAbs := by
    exact_mod_cast Nat.log2_self_le hnum
  have hnumHigh : (q.num.natAbs : Rat) < 2 ^ (q.num.natAbs.log2 + 1) := by
    exact_mod_cast Nat.lt_log2_self
  have hdenLow : (2 : Rat) ^ q.den.log2 ≤ q.den := by
    exact_mod_cast Nat.log2_self_le q.den_pos.ne'
  have hdenHigh : (q.den : Rat) < 2 ^ (q.den.log2 + 1) := by
    exact_mod_cast Nat.lt_log2_self
  rw [← hvalue] at hnumLow hnumHigh
  -- One power less is always right from below, and one more from above.
  have hlow : (2 : Rat) ^ ((q.num.natAbs.log2 : Int) - q.den.log2 - 1) ≤ q := by
    refine le_of_mul_le_mul_right ?_ hden
    calc (2 : Rat) ^ ((q.num.natAbs.log2 : Int) - q.den.log2 - 1) * q.den
        ≤ 2 ^ ((q.num.natAbs.log2 : Int) - q.den.log2 - 1) * 2 ^ (q.den.log2 + 1) :=
          mul_le_mul_of_nonneg_left hdenHigh.le (pow2_pos _).le
      _ = 2 ^ q.num.natAbs.log2 := by
          rw [← zpow_natCast, ← zpow_natCast, ← zpow_add₀ two_ne_zero]
          congr 1
          push_cast
          ring
      _ ≤ q * q.den := hnumLow
  have hhigh : q < (2 : Rat) ^ ((q.num.natAbs.log2 : Int) - q.den.log2 + 1) := by
    refine lt_of_mul_lt_mul_right ?_ hden.le
    calc q * q.den < 2 ^ (q.num.natAbs.log2 + 1) := hnumHigh
      _ = 2 ^ ((q.num.natAbs.log2 : Int) - q.den.log2 + 1) * 2 ^ q.den.log2 := by
          rw [← zpow_natCast, ← zpow_natCast, ← zpow_add₀ two_ne_zero]
          congr 1
          push_cast
          ring
      _ ≤ 2 ^ ((q.num.natAbs.log2 : Int) - q.den.log2 + 1) * q.den :=
          mul_le_mul_of_nonneg_left hdenLow (pow2_pos _).le
  rw [log2Floor]
  simp only [pow2_eq]
  split
  · rename_i hle
    exact ⟨hle, hhigh⟩
  · rename_i hlt
    refine ⟨hlow, ?_⟩
    rw [sub_add_cancel]
    exact not_le.mp hlt

theorem unitOf_ge (size : Rat) : -1074 ≤ unitOf size := by
  rw [unitOf]
  split <;> omega

/-- There are fewer than `2 ^ 53` units in a magnitude. -/
theorem lt_of_unitOf (h : 0 < q) : q < (2 : Rat) ^ (unitOf q + 53) := by
  refine (log2Floor_spec h).2.trans_le (zpow_le_zpow_right₀ one_le_two ?_)
  rw [unitOf]
  split <;> omega

/-- There are at least `2 ^ 52` of them, unless the unit is the smallest one. -/
theorem le_of_unitOf (h : 0 < q) (hunit : -1074 < unitOf q) : (2 : Rat) ^ (unitOf q + 52) ≤ q := by
  refine le_trans (zpow_le_zpow_right₀ one_le_two ?_) (log2Floor_spec h).1
  rw [unitOf] at hunit ⊢
  split at hunit <;> omega

theorem unitOf_mono (hx : 0 < x) (h : x ≤ y) : unitOf x ≤ unitOf y := by
  by_contra hless
  have hbig : -1074 < unitOf x := by
    have := unitOf_ge y
    omega
  have hlow : (2 : Rat) ^ (unitOf x + 52) < 2 ^ (unitOf y + 53) :=
    (le_of_unitOf hx hbig).trans_lt (h.trans_lt (lt_of_unitOf (hx.trans_le h)))
  have hexp : unitOf x + 52 < unitOf y + 53 :=
    (zpow_lt_zpow_iff_right₀ one_lt_two).mp hlow
  omega

/-! ## Magnitudes -/

theorem roundSize_zero : roundSize 0 = 0 := by
  rw [roundSize, zero_div]
  have hzero : roundHalfEven (0 : Rat) = 0 := roundHalfEven_intCast 0
  rw [hzero, Int.cast_zero, zero_mul]

/-- What is a whole number of units stays as it is. -/
theorem roundSize_of_whole {n : Int} (h : q = n * (2 : Rat) ^ unitOf q) : roundSize q = q := by
  have hunits : q / 2 ^ unitOf q = n := by
    rw [div_eq_iff (pow2_pos _).ne']
    exact h
  rw [roundSize, hunits, roundHalfEven_intCast]
  exact h.symm

/-- A multiple of a unit with at most `2 ^ 53` of them stays as it is. -/
theorem roundSize_grid {n : Nat} {e : Int} (hn : n ≤ 2 ^ 53) (he : -1074 ≤ e)
    (hq : q = n * (2 : Rat) ^ e) : roundSize q = q := by
  rcases Nat.eq_zero_or_pos n with rfl | hpos
  · rw [hq, Nat.cast_zero, zero_mul, roundSize_zero]
  have hqpos : 0 < q := by
    rw [hq]
    exact mul_pos (by exact_mod_cast hpos) (pow2_pos e)
  by_cases hle : unitOf q ≤ e
  · -- The unit of `q` divides the given one.
    obtain ⟨k, hk⟩ := Int.eq_ofNat_of_zero_le (show 0 ≤ e - unitOf q by omega)
    refine roundSize_of_whole (n := n * 2 ^ k) ?_
    have hsum : e = (k : Int) + unitOf q := by omega
    calc q = n * (2 : Rat) ^ ((k : Int) + unitOf q) := by rw [← hsum, hq]
      _ = (n * 2 ^ k : Int) * 2 ^ unitOf q := by
          rw [zpow_add₀ two_ne_zero, zpow_natCast]
          push_cast
          ring
  · -- The unit is larger only if there are all `2 ^ 53` of the given ones.
    have hupper : q ≤ (2 : Rat) ^ (e + 53) := by
      rw [hq, zpow_add₀ two_ne_zero, mul_comm]
      refine mul_le_mul_of_nonneg_left ?_ (pow2_pos e).le
      exact_mod_cast hn
    have hlower : (2 : Rat) ^ (unitOf q + 52) ≤ q := le_of_unitOf hqpos (by omega)
    have hexp : unitOf q + 52 ≤ e + 53 :=
      (zpow_le_zpow_iff_right₀ one_lt_two).mp (hlower.trans hupper)
    have hunit : unitOf q = e + 1 := by omega
    refine roundSize_of_whole (n := 2 ^ 52) ?_
    have hsame : q = (2 : Rat) ^ (unitOf q + 52) := by
      refine le_antisymm (hupper.trans_eq ?_) hlower
      rw [hunit]
      ring_nf
    calc q = (2 : Rat) ^ (unitOf q + 52) := hsame
      _ = (2 ^ 52 : Int) * 2 ^ unitOf q := by
          rw [zpow_add₀ two_ne_zero, mul_comm]
          norm_num

theorem roundHalfEven_nonneg (h : 0 ≤ q) : 0 ≤ roundHalfEven q := by
  have hzero : roundHalfEven (0 : Rat) = 0 := roundHalfEven_intCast 0
  exact hzero ▸ roundHalfEven_mono h

theorem roundSize_nonneg (h : 0 ≤ q) : 0 ≤ roundSize q := by
  refine mul_nonneg ?_ (pow2_pos _).le
  exact_mod_cast roundHalfEven_nonneg (div_nonneg h (pow2_pos _).le)

/-- The units of a magnitude, rounded to a whole number of them. -/
theorem exists_units (h : 0 < q) :
    ∃ n : Nat, n ≤ 2 ^ 53 ∧ roundSize q = n * (2 : Rat) ^ unitOf q := by
  have hnonneg : 0 ≤ roundHalfEven (q / 2 ^ unitOf q) :=
    roundHalfEven_nonneg (div_nonneg h.le (pow2_pos _).le)
  obtain ⟨n, hn⟩ := Int.eq_ofNat_of_zero_le hnonneg
  refine ⟨n, ?_, ?_⟩
  · have hfew : q / 2 ^ unitOf q ≤ ((2 ^ 53 : Int) : Rat) := by
      rw [div_le_iff₀ (pow2_pos _)]
      refine (lt_of_unitOf h).le.trans_eq ?_
      rw [zpow_add₀ two_ne_zero, mul_comm]
      norm_num
    have hround := roundHalfEven_mono hfew
    rw [roundHalfEven_intCast, hn] at hround
    exact_mod_cast hround
  · rw [roundSize, hn]
    rfl

theorem roundSize_idem (h : 0 ≤ q) : roundSize (roundSize q) = roundSize q := by
  rcases h.eq_or_lt with rfl | hpos
  · rw [roundSize_zero, roundSize_zero]
  obtain ⟨n, hn, hvalue⟩ := exists_units hpos
  exact roundSize_grid hn (unitOf_ge q) hvalue

/-- Rounding keeps the order of magnitudes. -/
theorem roundSize_mono (hx : 0 ≤ x) (h : x ≤ y) : roundSize x ≤ roundSize y := by
  rcases hx.eq_or_lt with rfl | hpos
  · rw [roundSize_zero]
    exact roundSize_nonneg h
  have hypos : 0 < y := hpos.trans_le h
  rcases (unitOf_mono hpos h).eq_or_lt with hsame | hless
  · rw [roundSize, roundSize, hsame]
    refine mul_le_mul_of_nonneg_right ?_ (pow2_pos _).le
    have hunits := roundHalfEven_mono (div_le_div_of_nonneg_right h (pow2_pos (unitOf y)).le)
    exact_mod_cast hunits
  · -- The power of two in between stays where it is.
    have hbig : -1074 < unitOf y := (unitOf_ge x).trans_lt hless
    obtain ⟨n, hn, hvalue⟩ := exists_units hpos
    have hfew : ((2 ^ 52 : Int) : Rat) ≤ y / 2 ^ unitOf y := by
      rw [le_div_iff₀ (pow2_pos _)]
      refine le_trans (le_of_eq ?_) (le_of_unitOf hypos hbig)
      rw [zpow_add₀ two_ne_zero, mul_comm]
      norm_num
    have hround := roundHalfEven_mono hfew
    rw [roundHalfEven_intCast] at hround
    calc roundSize x = n * (2 : Rat) ^ unitOf x := hvalue
      _ ≤ 2 ^ 53 * 2 ^ unitOf x :=
          mul_le_mul_of_nonneg_right (by exact_mod_cast hn) (pow2_pos _).le
      _ = 2 ^ 52 * 2 ^ (unitOf x + 1) := by
          rw [zpow_add_one₀ two_ne_zero]
          ring
      _ ≤ 2 ^ 52 * 2 ^ unitOf y := by
          refine mul_le_mul_of_nonneg_left (zpow_le_zpow_right₀ one_le_two ?_) (by norm_num)
          omega
      _ ≤ roundSize y := by
          refine mul_le_mul_of_nonneg_right ?_ (pow2_pos _).le
          exact_mod_cast hround

/-- A whole number that the format holds is rounded to itself. -/
theorem roundSize_natCast {n : Nat} (h : n ≤ 2 ^ 53) : roundSize n = n := by
  refine roundSize_grid h (e := 0) (by norm_num) ?_
  rw [zpow_zero, mul_one]

/-! ## Numbers of either sign -/

theorem nearest_eq (q : Rat) : nearest q
    = if q.den = 1 ∧ q.num.natAbs ≤ exactBound then .finite q
      else if (2 : Rat) ^ (1024 : Int) ≤ roundSize |q| then .infinite (decide (q < 0))
      else .finite (if q < 0 then -roundSize |q| else roundSize |q|) := by
  have hsize : (if q < 0 then -q else q) = |q| := by
    split_ifs with h
    · exact (abs_of_neg h).symm
    · exact (abs_of_nonneg (not_lt.mp h)).symm
  have hround : ∀ size : Rat, (roundHalfEven
      (size / pow2 (if log2Floor size < -1022 then -1074 else log2Floor size - 52)) : Rat)
        * pow2 (if log2Floor size < -1022 then -1074 else log2Floor size - 52)
      = roundSize size := by
    intro size
    rw [pow2_eq, roundSize, unitOf]
  rw [nearest]
  simp only [hsize, hround]
  rw [pow2_eq]

/-- A whole number that the format holds stays as it is. -/
theorem rounded_natCast {n : Nat} (h : n ≤ exactBound) : rounded n = n := by
  have hnearest : nearest n = .finite n := by rw [nearest, if_pos ⟨rfl, h⟩]
  rw [rounded, hnearest]

/-- Whole numbers need no case of their own. -/
theorem rounded_of_nonneg (h : 0 ≤ q) :
    rounded q = if (2 : Rat) ^ (1024 : Int) ≤ roundSize q then q else roundSize q := by
  rw [rounded, nearest_eq, abs_of_nonneg h]
  split_ifs with hwhole hlarge hlarge hneg
  · rfl
  · obtain ⟨hden, hnum⟩ := hwhole
    have hq : q = q.num.natAbs := by
      rw [Nat.cast_natAbs, abs_of_nonneg (Rat.num_nonneg.mpr h)]
      exact (Rat.den_eq_one_iff q).mp hden |>.symm
    have hsame : roundSize (q.num.natAbs : Rat) = q.num.natAbs := by
      refine roundSize_natCast (hnum.trans ?_)
      norm_num [exactBound]
    rw [← hq] at hsame
    exact hsame.symm
  · rfl
  · exact absurd h (not_le.mpr hneg)
  · rfl

theorem rounded_neg (q : Rat) : rounded (-q) = -rounded q := by
  rw [rounded, rounded, nearest_eq, nearest_eq, abs_neg, Rat.neg_den, Rat.neg_num, Int.natAbs_neg]
  by_cases hwhole : q.den = 1 ∧ q.num.natAbs ≤ exactBound
  · rw [if_pos hwhole, if_pos hwhole]
  rw [if_neg hwhole, if_neg hwhole]
  by_cases hlarge : (2 : Rat) ^ (1024 : Int) ≤ roundSize |q|
  · rw [if_pos hlarge, if_pos hlarge]
  rw [if_neg hlarge, if_neg hlarge]
  have hnonzero : q ≠ 0 := by
    rintro rfl
    exact hwhole ⟨rfl, Nat.zero_le _⟩
  rcases lt_or_gt_of_ne hnonzero with hneg | hpos
  · rw [if_neg (by linarith), if_pos hneg]
    exact (neg_neg _).symm
  · rw [if_pos (by linarith), if_neg (by linarith)]

theorem rounded_nonneg (h : 0 ≤ q) : 0 ≤ rounded q := by
  rw [rounded_of_nonneg h]
  split
  · exact h
  · exact roundSize_nonneg h

theorem rounded_mono_of_nonneg (hx : 0 ≤ x) (h : x ≤ y) : rounded x ≤ rounded y := by
  have hround := roundSize_mono hx h
  rw [rounded_of_nonneg hx, rounded_of_nonneg (hx.trans h)]
  split_ifs with hlargex hlargey hlargey
  · exact h
  · exact absurd (hlargex.trans hround) hlargey
  · -- What `x` is rounded to would round `y` down to itself if it were above `y`.
    by_contra hless
    have hback : roundSize y ≤ roundSize x := by
      rw [← roundSize_idem hx]
      exact roundSize_mono (hx.trans h) (not_le.mp hless).le
    exact hlargex (hlargey.trans hback)
  · exact hround

/-- **Rounding keeps the order.** -/
theorem rounded_mono (h : x ≤ y) : rounded x ≤ rounded y := by
  rcases le_total 0 x with hx | hx
  · exact rounded_mono_of_nonneg hx h
  have hnegx : rounded x = -rounded (-x) := by rw [rounded_neg, neg_neg]
  rcases le_total 0 y with hy | hy
  · have hleft : 0 ≤ rounded (-x) := rounded_nonneg (by linarith)
    have hright : 0 ≤ rounded y := rounded_nonneg hy
    linarith
  · have hback : rounded (-y) ≤ rounded (-x) := rounded_mono_of_nonneg (by linarith) (by linarith)
    rw [rounded_neg y] at hback
    linarith

end Number

end SshDial

/-! # Numbers — the 64-bit binary format

    Numbers are given in requests and kept on the clock: the finite values of the format, held
    as exact rationals, the two infinities and the undefined value.

    `Number.nearest` rounds a rational into the format, a tie to the even significand. -/

namespace SshDial

/-- A number of the 64-bit binary format; zero has one sign. -/
inductive Number where
  | undefined
  | infinite (negative : Bool)
  | finite (value : Rat)
  deriving DecidableEq, Inhabited

namespace Number

/-- The magnitude up to which the format holds every whole number, `2 ^ 53`. -/
def exactBound : Nat := 9007199254740992

/-- A whole number, which the format holds exactly when it is not above `exactBound`. -/
def ofInt (i : Int) : Number := .finite i

instance (n : Nat) : OfNat Number n := ⟨ofInt n⟩

/-- `2` to a power that may be negative. -/
def pow2 (e : Int) : Rat :=
  if 0 ≤ e then (Nat.pow 2 e.toNat : Rat) else 1 / (Nat.pow 2 (-e).toNat : Rat)

/-- `10` to a power that may be negative. -/
def pow10 (e : Int) : Rat :=
  if 0 ≤ e then (Nat.pow 10 e.toNat : Rat) else 1 / (Nat.pow 10 (-e).toNat : Rat)

/-- The nearest whole number, a half to the even one. -/
def roundHalfEven (q : Rat) : Int :=
  let down := q.floor
  let rest := q - down
  if rest < 1 / 2 then down
  else if 1 / 2 < rest then down + 1
  else if down % 2 = 0 then down else down + 1

/-- The greatest `e` with `2 ^ e ≤ q`, for a positive `q`. -/
def log2Floor (q : Rat) : Int :=
  let guess : Int := (q.num.natAbs.log2 : Int) - (q.den.log2 : Int)
  if pow2 guess ≤ q then guess else guess - 1

/-- The number of the format nearest to a rational, a tie to the even significand; too large
    a magnitude becomes infinite. -/
def nearest (q : Rat) : Number :=
  if q.den = 1 ∧ q.num.natAbs ≤ exactBound then .finite q
  else
    let size := if q < 0 then -q else q
    let exponent := if log2Floor size < -1022 then -1074 else log2Floor size - 52
    let rounded := (roundHalfEven (size / pow2 exponent) : Rat) * pow2 exponent
    if pow2 1024 ≤ rounded then .infinite (decide (q < 0))
    else .finite (if q < 0 then -rounded else rounded)

/-- A rational as far as the format can hold it; one that is too large for it stays as it is. -/
def rounded (q : Rat) : Rat :=
  match nearest q with
  | .finite r => r
  | _ => q

/-- Is the number finite and whole? -/
def isWhole : Number → Bool
  | .finite q => q.den == 1
  | _ => false

/-- The whole number meant, if it is one. -/
def toInt? : Number → Option Int
  | .finite q => if q.den = 1 then some q.num else none
  | _ => none

/-- Is the number below the whole number `bound`? The undefined value is below nothing. -/
def isBelow : Number → Int → Bool
  | .undefined, _ => false
  | .infinite negative, _ => negative
  | .finite q, bound => decide (q < bound)

/-- Is the number above the whole number `bound`? The undefined value is above nothing. -/
def isAbove : Number → Int → Bool
  | .undefined, _ => false
  | .infinite negative, _ => !negative
  | .finite q, bound => decide ((bound : Rat) < q)

/-- Zero and the undefined value count as no answer. -/
def isTruthy : Number → Bool
  | .undefined => false
  | .infinite _ => true
  | .finite q => q != 0

/-- The product with a whole number, rounded into the format. -/
def scale : Number → Nat → Number
  | .finite q, k => nearest (q * k)
  | .infinite negative, k => if k = 0 then .undefined else .infinite negative
  | .undefined, _ => .undefined

@[simp] theorem toInt?_ofInt (i : Int) : (ofInt i).toInt? = some i := by
  simp [ofInt, toInt?]

end Number

end SshDial

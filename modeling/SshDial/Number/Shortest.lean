import SshDial.Number.Basic

/-! # Writing numbers — the fewest digits that read back as the same number

    Of those the digits nearest to the number are taken.  It is positional below `10 ^ 21` and
    above `10 ^ -7`, with an exponent outside. -/

namespace SshDial.Number

/-- The `digits`-digit decimals next to a positive value whose magnitude is below `10 ^
    magnitude`, that read back as it; the nearer one of two, the even one of two equally
    near. -/
def decimalAt (value : Rat) (magnitude : Int) (digits : Nat) : Option Nat :=
  let unit := pow10 (magnitude - digits)
  let low := (value / unit).floor.toNat
  let readsBack (n : Nat) : Bool := nearest (n * unit) == .finite value
  match readsBack low, readsBack (low + 1) with
  | true, true =>
    let down := value / unit - low
    if down < 1 / 2 then some low
    else if 1 / 2 < down then some (low + 1)
    else if low % 2 = 0 then some low else some (low + 1)
  | true, false => some low
  | false, true => some (low + 1)
  | false, false => none

/-- The least `m` with `q < 10 ^ m`, searched upwards from `m` in at most `steps` steps. -/
def magnitudeFrom (q : Rat) : Nat → Int → Int
  | 0, m => m
  | steps + 1, m => if q < pow10 m then m else magnitudeFrom q steps (m + 1)

/-- The least `m` with `q < 10 ^ m`, for a positive `q` of the format. -/
def magnitude (q : Rat) : Int :=
  let guess : Int := log2Floor q * 30103 / 100000
  magnitudeFrom q 4 (guess - 1)

/-- The first digit count from `digits` on that has a decimal reading back. -/
def shortestFrom (value : Rat) (magnitude : Int) : Nat → Nat → Nat × Nat
  | 0, digits => ((value / pow10 (magnitude - digits)).floor.toNat, digits)
  | steps + 1, digits =>
    match decimalAt value magnitude digits with
    | some n => (n, digits)
    | none => shortestFrom value magnitude steps (digits + 1)

/-- Removes the zeros at the end of a digit string. -/
def stripZeros (digits : List Char) : List Char := (digits.reverse.dropWhile (· == '0')).reverse

/-- Digits with the decimal point after the first `point` of them. -/
def positional (digits : List Char) (point : Int) : List Char :=
  let k : Int := digits.length
  if k ≤ point ∧ point ≤ 21 then digits ++ List.replicate (point - k).toNat '0'
  else if 0 < point ∧ point ≤ 21 then
    digits.take point.toNat ++ '.' :: digits.drop point.toNat
  else if -6 < point ∧ point ≤ 0 then
    '0' :: '.' :: (List.replicate (-point).toNat '0' ++ digits)
  else
    let exponent := point - 1
    let mark := 'e' :: (if exponent < 0 then '-' else '+') :: (toString exponent.natAbs).toList
    match digits with
    | [] => []
    | [d] => d :: mark
    | d :: rest => d :: '.' :: (rest ++ mark)

/-- The text of a positive value of the format. -/
def positiveText (q : Rat) : List Char :=
  let m := magnitude q
  let (n, digits) := shortestFrom q m 17 1
  let all := (toString n).toList
  positional (stripZeros all) (m + (all.length - digits : Int))

/-- The text of a number. A whole number that the format holds exactly is written in full. -/
def text : Number → String
  | .undefined => "NaN"
  | .infinite negative => if negative then "-Infinity" else "Infinity"
  | .finite q =>
    if q.den = 1 ∧ q.num.natAbs ≤ exactBound then toString q.num
    else if q < 0 then String.ofList ('-' :: positiveText (-q))
    else String.ofList (positiveText q)

end SshDial.Number

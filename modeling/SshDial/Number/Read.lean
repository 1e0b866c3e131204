import SshDial.Number.Basic
import SshDial.Text.Blank
import SshDial.Text.Keyword

/-! # Reading numbers — decimals, and digits of another base

    A number is an optionally signed decimal with fraction and exponent, or `0x`, `0o`, `0b`
    and digits of that base; white space around it is allowed and nothing at all means zero. -/

namespace SshDial.Number

open SshDial.Text

/-- The value of a digit in bases up to 36, if the base has it. -/
def digitIn (base : Nat) (c : Char) : Option Nat :=
  let n := c.toNat
  let d :=
    if 48 ≤ n ∧ n ≤ 57 then some (n - 48)
    else if 97 ≤ n ∧ n ≤ 122 then some (n - 87)
    else if 65 ≤ n ∧ n ≤ 90 then some (n - 55)
    else none
  d.filter (· < base)

/-- The value of a digit string, if every character is a digit of the base. -/
def digitsIn (base : Nat) (s : List Char) : Option Nat :=
  s.foldl (fun acc c => acc.bind fun n => (digitIn base c).map (n * base + ·)) (some 0)

/-- A decimal `significand · 10 ^ exponent`; an exponent far outside the format is not computed. -/
def ofDecimal (significand : Nat) (exponent : Int) : Number :=
  if significand = 0 then 0
  else
    let size : Int := (Nat.log2 significand : Int) * 30103 / 100000 + exponent
    if 400 < size then .infinite false
    else if size < -400 then 0
    else nearest (significand * pow10 exponent)

/-- The exponent part after a significand: nothing, or `e`, an optional sign and digits. -/
def readExponent : List Char → Option Int
  | [] => some 0
  | c :: s =>
    if c = 'e' ∨ c = 'E' then
      let (negative, digits) :=
        match s with
        | '-' :: r => (true, r)
        | '+' :: r => (false, r)
        | r => (false, r)
      if digits.isEmpty then none
      else (digitsIn 10 digits).map fun n => if negative then -(n : Int) else n
    else none

/-- An unsigned decimal: digits with an optional fraction, or a fraction alone, and an exponent. -/
def readDecimal (s : List Char) : Option Number :=
  let whole := s.takeWhile isDigit
  let afterWhole := s.dropWhile isDigit
  let (fraction, rest) :=
    match afterWhole with
    | '.' :: r => (r.takeWhile isDigit, r.dropWhile isDigit)
    | r => ([], r)
  if whole.isEmpty && fraction.isEmpty then none
  else
    (digitsIn 10 (whole ++ fraction)).bind fun significand =>
      (readExponent rest).map fun e => ofDecimal significand (e - fraction.length)

/-- An unsigned number without a base mark, or the word for infinity. -/
def readUnsigned (s : List Char) : Option Number :=
  if s = "Infinity".toList then some (.infinite false) else readDecimal s

/-- The number with its sign turned round. -/
def negate : Number → Number
  | .finite q => .finite (-q)
  | .infinite negative => .infinite !negative
  | .undefined => .undefined

/-- Digits of a base after its mark; none at all is no number. -/
def readBased (base : Nat) (digits : List Char) : Option Number :=
  if digits.isEmpty then none else (digitsIn base digits).map fun n => nearest n

/-- The number a text stands for; the undefined value if it stands for none. -/
def read (text : String) : Number :=
  let value : Option Number :=
    match trim text.toList with
    | [] => some 0
    | '-' :: s => (readUnsigned s).map negate
    | '+' :: s => readUnsigned s
    | '0' :: 'x' :: s => readBased 16 s
    | '0' :: 'X' :: s => readBased 16 s
    | '0' :: 'o' :: s => readBased 8 s
    | '0' :: 'O' :: s => readBased 8 s
    | '0' :: 'b' :: s => readBased 2 s
    | '0' :: 'B' :: s => readBased 2 s
    | s => readUnsigned s
  value.getD .undefined

end SshDial.Number

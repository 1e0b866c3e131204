/-! # UTF-8 — text out of bytes

    Every ill-formed stretch becomes one replacement character per maximal part that could
    still have begun a character.  A byte order mark is kept. -/

namespace SshDial.Text

/-- The least and greatest second byte after this lead byte, and the number of bytes that
    follow the lead; none for a byte that begins no longer sequence. -/
def Utf8.shape (lead : Nat) : Option (Nat × Nat × Nat) :=
  if 0xC2 ≤ lead ∧ lead ≤ 0xDF then some (0x80, 0xBF, 1)
  else if lead = 0xE0 then some (0xA0, 0xBF, 2)
  else if lead = 0xED then some (0x80, 0x9F, 2)
  else if 0xE1 ≤ lead ∧ lead ≤ 0xEF then some (0x80, 0xBF, 2)
  else if lead = 0xF0 then some (0x90, 0xBF, 3)
  else if 0xF1 ≤ lead ∧ lead ≤ 0xF3 then some (0x80, 0xBF, 3)
  else if lead = 0xF4 then some (0x80, 0x8F, 3)
  else none

/-- What the decoder has read of the current character. -/
inductive Utf8.State where
  /-- Between two characters. -/
  | start
  /-- `value` so far, `more` bytes missing, the next one between `least` and `greatest`. -/
  | within (value more least greatest : Nat)

/-- The character that stands for an ill-formed stretch. -/
def Utf8.replacement : Char := Char.ofNat 0xFFFD

/-- One byte met between two characters. -/
def Utf8.begin (b : Nat) : List Char × Utf8.State :=
  if b < 0x80 then ([Char.ofNat b], .start)
  else
    match Utf8.shape b with
    | some (least, greatest, more) =>
      (([] : List Char), .within (b % Nat.pow 2 (6 - more)) more least greatest)
    | none => ([Utf8.replacement], .start)

/-- One byte: the characters it completes and the state after it. -/
def Utf8.feed : Utf8.State → Nat → List Char × Utf8.State
  | .start, b => Utf8.begin b
  | .within value more least greatest, b =>
    if least ≤ b ∧ b ≤ greatest then
      let next := value * 64 + b % 64
      if more ≤ 1 then ([Char.ofNat next], .start) else ([], .within next (more - 1) 0x80 0xBF)
    else
      let (out, state) := Utf8.begin b
      (Utf8.replacement :: out, state)

/-- The characters of a byte sequence, from a state of the decoder on. -/
def Utf8.decodeFrom : Utf8.State → List Nat → List Char
  | .start, [] => []
  | .within .., [] => [Utf8.replacement]
  | state, b :: bytes =>
    let (out, next) := Utf8.feed state b
    out ++ Utf8.decodeFrom next bytes

/-- The text that a byte sequence stands for. -/
def Utf8.decode (bytes : List Nat) : String := String.ofList (Utf8.decodeFrom .start bytes)

end SshDial.Text

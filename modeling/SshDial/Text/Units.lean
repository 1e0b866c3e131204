/-! # Units — a text seen as UTF-16

    This is the measure in which patterns count characters, texts report their length and file
    names are sorted. -/

namespace SshDial.Text

/-- One unit for a character of the basic plane, a surrogate pair for any other. -/
def unitsOf (c : Char) : List Nat :=
  if c.toNat < 0x10000 then [c.toNat]
  else [0xD800 + (c.toNat - 0x10000) / 0x400, 0xDC00 + (c.toNat - 0x10000) % 0x400]

/-- The UTF-16 units of a text. -/
def units (s : List Char) : List Nat := s.flatMap unitsOf

@[simp] theorem units_nil : units [] = [] := rfl

@[simp] theorem units_append (s t : List Char) : units (s ++ t) = units s ++ units t := by
  simp [units]

/-- The length of a text in UTF-16 units. -/
def unitLength (s : String) : Nat := (units s.toList).length

/-- Does the first list come before the second, or equal it, in dictionary order? -/
def unitsLe : List Nat → List Nat → Bool
  | [], _ => true
  | _ :: _, [] => false
  | a :: s, b :: t => if a = b then unitsLe s t else decide (a < b)

/-- Dictionary order by UTF-16 unit. -/
def leUnits (s t : String) : Bool := unitsLe (units s.toList) (units t.toList)

end SshDial.Text

/-! # Keywords — words compared without regard to letter case

    Every word that a text is compared with here is ASCII, so `lower` only maps the characters
    whose lower case is an ASCII letter: `A` to `Z` and the Kelvin sign. -/

namespace SshDial.Text

/-- The ASCII lower case of a character that has one, else the character itself. -/
def lowerChar (c : Char) : Char :=
  if c.toNat = 0x212A then 'k' else c.toLower

/-- A text in lower case, as far as a comparison with ASCII words can tell. -/
def lower (s : String) : String := String.ofList (s.toList.map lowerChar)

/-- An ASCII letter. -/
def isLetter (c : Char) : Bool := c.isAlpha

/-- An ASCII digit. -/
def isDigit (c : Char) : Bool := c.isDigit

/-- An ASCII letter or digit, or an underscore. -/
def isWordChar (c : Char) : Bool := c.isAlphanum || c == '_'

/-- Does the first text occur in the second? -/
def occursIn (word : List Char) : List Char → Bool
  | [] => word.isEmpty
  | c :: s => word.isPrefixOf (c :: s) || occursIn word s

end SshDial.Text

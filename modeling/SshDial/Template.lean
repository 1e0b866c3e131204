/-! # Templates — texts with percent signs

    A template is cut, in one way, into items: plain characters, pairs of `%` and a character,
    and a lone `%` at the end.  `Template.expand` puts in the value of each pair that has one;
    what it puts in is not looked at again. -/

namespace SshDial.Template

/-- The values of a template's letters. -/
abbrev Values := List (Char × String)

/-- The value of a letter, if it has one.  A letter is a single UTF-16 unit, so a character
    that takes two of them has none. -/
def value? (values : Values) (letter : Char) : Option String :=
  if letter.toNat < 0x10000 then values.lookup letter else none

/-- A pair keeps its own text when its letter has no value, and `%%` writes a percent sign. -/
def pair (values : Values) (letter : Char) : List Char :=
  if letter = '%' then ['%']
  else
    match value? values letter with
    | some value => value.toList
    | none => ['%', letter]

/-- The text that a template stands for, character by character. -/
def expandChars (values : Values) : List Char → List Char
  | [] => []
  | ['%'] => ['%']
  | '%' :: letter :: rest => pair values letter ++ expandChars values rest
  | c :: rest => c :: expandChars values rest

/-- The text that a template stands for. -/
def expand (values : Values) (template : String) : String :=
  String.ofList (expandChars values template.toList)

end SshDial.Template

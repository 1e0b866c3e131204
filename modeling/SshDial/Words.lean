/-! # Words — the argument text of a directive

    Spaces and tabs separate words, single and double quotes hold text together, and a word
    that would begin with `#` begins a comment instead.  `Words.ofText?` fails only on a quote
    that is never closed. -/

namespace SshDial

/-- The words of a text, and the text they were read from without the comment. -/
structure Words where
  args : List String
  body : String
  deriving DecidableEq, Repr, Inhabited

namespace Words

/-- The characters that separate words. -/
def isGap (c : Char) : Bool := c == ' ' || c == '\t'

/-- The characters that open a quoted piece and close it again. -/
def isQuote (c : Char) : Bool := c == '"' || c == '\''

/-- The words from a position on, and the comment that ends them.  `quote` is the quote that
    is open and `word` the word that has begun; `none` is returned if a quote stays open. -/
def scan : Option Char → Option (List Char) → List Char → Option (List (List Char) × List Char)
  | some _, _, [] => none
  | none, word, [] => some (word.toList, [])
  | some q, word, c :: s =>
    if c = q then scan none word s else scan (some q) (some (word.getD [] ++ [c])) s
  | none, word, c :: s =>
    if isQuote c then scan (some c) (some (word.getD [])) s
    else if isGap c then
      match word with
      | none => scan none none s
      | some w => (scan none none s).map fun (words, comment) => (w :: words, comment)
    else if c = '#' ∧ word = none then some ([], c :: s)
    else scan none (some (word.getD [] ++ [c])) s

/-- The words of a text; `none` if a quote is never closed. -/
def ofText? (text : String) : Option Words :=
  (scan none none text.toList).map fun (words, comment) =>
    { args := words.map String.ofList
      body := String.ofList (text.toList.take (text.toList.length - comment.length)) }

end Words

end SshDial

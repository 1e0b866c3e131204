import SshDial.Regex.Read

/-! # Drafts — a regular expression while its glob is being read

    A draft keeps the expression written so far and the tokens that it was written for,
    because later characters can change what an earlier one means: a second star makes the
    first one cross slashes, and a closing brace decides what the opening one was.  If such a
    change cannot be made in the text, the draft is marked and its text is put together from
    the tokens at the end. -/

namespace SshDial.Glob

open SshDial.Text

/-! The parts that the expressions of globs are built from. -/

namespace Phrase

/-- The text of a phrase. -/
def of (s : String) : List Char := s.toList

/-- A dot. -/
def dot : List Char := of "\\."

/-- A slash. -/
def slash : List Char := of "\\/"

/-- Something follows. -/
def someChar : List Char := of "(?=.)"

/-- One unit of a name. -/
def nameChar : List Char := of "[^/]"

/-- Any stretch of a name. -/
def nameRun : List Char := of "[^/]*?"

/-- The name that begins here is neither `.` nor `..`. -/
def noDots : List Char := of "(?!\\.\x7b1,2\x7d(?:\\/|$))"

/-- No name from here on is `.` or `..`. -/
def noDotsAnywhere : List Char := of "(?!(?:^|\\/)\\.\x7b1,2\x7d(?:\\/|$))"

/-- What follows a dot does not end the names `.` and `..`. -/
def noFurtherDot : List Char := of "(?!\\.\x7b0,1\x7d(?:\\/|$))"

/-- Any path without a name `.` or `..`. -/
def anyPath : List Char := of "(?:(?:(?!(?:^|\\/)\\.\x7b1,2\x7d(?:\\/|$)).)*?)"

end Phrase

/-- Does the character have a meaning of its own in expressions? -/
def isSpecial (c : Char) : Bool := "-*+?.^$\x7b(|)\x7d[]".toList.contains c

/-- The text with a backslash before every special character. -/
def escapeSpecial (s : List Char) : List Char :=
  s.flatMap fun c => if isSpecial c then ['\\', c] else [c]

/-- What a token stands for, as far as later characters ask. -/
inductive TokenKind where
  | start
  | text
  | slash
  | dot
  | dots
  | star
  /-- Two stars that cross slashes. -/
  | crossing
  | square
  | parenthesis
  | brace
  | comma
  | other
  deriving DecidableEq, Repr, Inhabited

/-- A stretch of the glob with what was written for it; without `output` it was written as it is. -/
structure Token where
  kind : TokenKind
  value : List Char := []
  output : Option (List Char) := none
  /-- Stars beyond the second were added. -/
  isRun : Bool := false
  /-- A class of characters is named inside. -/
  hasClass : Bool := false
  deriving Repr, Inhabited

namespace Token

/-- What is written for the token. -/
def written (t : Token) : List Char := t.output.getD t.value

/-- What is written for the token, or if that is nothing, its own text. -/
def writtenOrValue (t : Token) : List Char := if t.written = [] then t.value else t.written

end Token

/-- The brackets that are open. -/
inductive Bracket where
  | brace
  | parenthesis
  | square
  deriving DecidableEq, Repr

/-- An open brace: where it stands in text and tokens, and what was met inside. -/
structure OpenBrace where
  hasComma : Bool
  hasDots : Bool
  outputLength : Nat
  tokenCount : Nat
  deriving Repr

/-- An open group after one of the signs `!?+*`: the parentheses open around it and what it holds. -/
structure OpenGroup where
  sign : Char
  parentheses : Int
  inside : List Char
  deriving Repr

/-- What has been made of the characters read so far; the last token stands first. -/
structure Draft where
  tokens : List Token := [{ kind := .start, output := some [] }]
  output : List Char := []
  /-- The characters not yet read. -/
  rest : List Char
  /-- How many characters have been read. -/
  taken : Nat := 0
  /-- Where the glob begins, its leading `./` and `!` left aside. -/
  start : Nat := 0
  negated : Bool := false
  /-- The text has to be put together from the tokens. -/
  stale : Bool := false
  quoted : Bool := false
  inSquare : Bool := false
  braces : List OpenBrace := []
  parentheses : Int := 0
  opened : List Bracket := []
  groups : List OpenGroup := []
  deriving Repr

namespace Draft

/-- The last token. -/
def last (d : Draft) : Token := d.tokens.headD { kind := .start }

/-- The draft with the last token changed. -/
def mapLast (d : Draft) (f : Token → Token) : Draft :=
  match d.tokens with
  | [] => d
  | t :: ts => { d with tokens := f t :: ts }

/-- The draft with text added to what is written. -/
def write (d : Draft) (s : List Char) : Draft := { d with output := d.output ++ s }

/-- The draft without the last so many characters of what is written. -/
def unwrite (d : Draft) (n : Nat) : Draft :=
  { d with output := d.output.take (d.output.length - n) }

/-- The draft with so many more characters read. -/
def skip (d : Draft) (n : Nat) : Draft := { d with rest := d.rest.drop n, taken := d.taken + n }

/-- The next character. -/
def next? (d : Draft) : Option Char := d.rest.head?

/-- The character after the next one. -/
def afterNext? (d : Draft) : Option Char := d.rest[1]?

/-- Two stars that something other than a slash follows are one star. -/
def settleStars (d : Draft) (t : Token) (opensGroup : Bool) : Draft :=
  let inBraces := !d.braces.isEmpty && (t.kind == .comma || t.kind == .brace)
  if d.last.kind = .crossing ∧ t.kind ≠ .slash ∧ t.kind ≠ .parenthesis ∧ !inBraces ∧ !opensGroup then
    let before := d.unwrite d.last.written.length
    (before.mapLast fun s => { s with kind := .star, value := ['*'], output := some Phrase.nameRun }).write
      Phrase.nameRun
  else d

/-- The draft with one more token; text goes on the text before it. -/
def push (d : Draft) (t : Token) (opensGroup : Bool := false) : Draft :=
  let d := d.settleStars t opensGroup
  let d : Draft :=
    match d.groups with
    | g :: gs =>
      if t.kind = .parenthesis then d
      else { d with groups := { g with inside := g.inside ++ t.value } :: gs }
    | [] => d
  let d := d.write t.written
  if d.last.kind = .text ∧ t.kind = .text then
    d.mapLast fun s =>
      { s with output := some (s.writtenOrValue ++ t.value), value := s.value ++ t.value }
  else { d with tokens := t :: d.tokens }

/-- The draft with one more token of text. -/
def pushText (d : Draft) (s : List Char) : Draft := d.push { kind := .text, value := s }

/-- The draft with one more token that is written in its own way. -/
def pushAs (d : Draft) (kind : TokenKind) (value output : List Char) : Draft :=
  d.push { kind, value, output := some output }

/-- The draft with text added to the last token and to what is written. -/
def extendLast (d : Draft) (s : List Char) : Draft :=
  (d.mapLast fun t => { t with value := t.value ++ s }).write s

/-- The draft with text added to what is written for the last token. -/
def writeLast (d : Draft) (s : List Char) : Draft :=
  (d.mapLast fun t => { t with output := some (t.output.getD [] ++ s) }).write s

/-- The text put together from the tokens. -/
def fromTokens (d : Draft) : List Char := (d.tokens.reverse.map Token.written).flatten

/-- The text with a backslash before the last of these characters that has none, if there is one. -/
def escapeLast (c : Char) (s : List Char) : List Char :=
  let rec go : List Char → List Char
    | [] => []
    | x :: r => if x = c ∧ r.head? ≠ some '\\' then x :: '\\' :: r else x :: go r
  (go s.reverse).reverse

/-- The draft with a repeated change. -/
def repeatedly (n : Nat) (f : List Char → List Char) (d : Draft) : Draft :=
  { d with output := (List.range n).foldl (fun s _ => f s) d.output }

/-- The finished text.  What is still open means itself; a star or a square bracket at the
    end may be followed by a slash. -/
def finish (d : Draft) : List Char :=
  let d := d.repeatedly (if d.inSquare then 1 else 0) (escapeLast '[')
  let d := d.repeatedly d.parentheses.toNat (escapeLast '(')
  let d := d.repeatedly d.braces.length (escapeLast '{')
  let d :=
    if d.last.kind = .star ∨ d.last.kind = .square then
      d.pushAs .other [] (Phrase.slash ++ ['?'])
    else d
  if d.stale then d.fromTokens else d.output

end Draft

end SshDial.Glob

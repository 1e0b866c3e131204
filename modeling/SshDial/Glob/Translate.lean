import SshDial.Glob.Draft

/-! # Translation — the regular expression that a glob is

    The glob has no alternatives in braces any more.  `*` and `?` stay within a name, `**` as a
    whole name crosses slashes, square brackets list characters, parentheses group as in an
    expression, and behind one of `!?+*@` they say how often the group may stand.  The names
    `.` and `..` are met only where they are written. -/

namespace SshDial.Glob

open SshDial.Text

/-- The characters that a named class inside square brackets lists, if there is such a class. -/
def namedClass (name : List Char) : Option (List Char) :=
  (([("alnum", "a-zA-Z0-9"), ("alpha", "a-zA-Z"), ("ascii", "\\x00-\\x7F"), ("blank", " \\t"),
    ("cntrl", "\\x00-\\x1F\\x7F"), ("digit", "0-9"), ("graph", "\\x21-\\x7E"), ("lower", "a-z"),
    ("print", "\\x20-\\x7E "), ("punct", "\\-!\"#$%&'()\\*+,./:;<=>?@[\\]^_\x60\x7b|\x7d~"),
    ("space", " \\t\\r\\n\\v\\f"), ("upper", "A-Z"), ("word", "A-Za-z0-9_"),
    ("xdigit", "A-Fa-f0-9")] : List (String × String)).lookup (String.ofList name)).map String.toList

/-- How a group behind a sign opens. -/
def groupOpening (sign : Char) : List Char :=
  if sign = '!' then Phrase.of "(?:(?!(?:" else Phrase.of "(?:"

/-- How a group behind a sign closes; `)` is all there is behind `@`. -/
def groupClosing (sign : Char) : List Char :=
  match sign with
  | '!' => Phrase.of "))" ++ Phrase.nameRun ++ [')']
  | '?' => Phrase.of ")?"
  | '+' => Phrase.of ")+"
  | '*' => Phrase.of ")*"
  | _ => [')']

/-- Does the character go on a stretch of text? -/
def isPlain (c : Char) : Bool := !"@![].,$*+?^\x7b\x7d()|\\/".toList.contains c

namespace Draft

/-- A backslash: a slash, a dot or a semicolon behind it goes on as if it stood alone, any
    other character keeps the backslash.  Of more than two further backslashes an odd or
    even number is left. -/
def readBackslash (d : Draft) : Draft :=
  match d.rest with
  | [] => d.pushText ['\\', '\\']
  | c :: _ =>
    if c = '/' ∨ c = '.' ∨ c = ';' then d
    else
      let run := (d.rest.takeWhile (· == '\\')).length
      let d' := if 2 < run then d.skip run else d
      let front := if 2 < run ∧ run % 2 = 1 then ['\\', '\\'] else ['\\']
      let value := front ++ d'.rest.take 1
      let d' := { d' with rest := d'.rest.drop 1, taken := d'.taken + (d'.rest.take 1).length }
      if d'.inSquare then d'.extendLast value else d'.pushText value

/-- The named class that a colon ends inside square brackets, with the text before it. -/
def closedClass (value : List Char) : Option (List Char) :=
  if value.tail.contains '[' ∧ value.tail.contains ':' then
    -- the text behind the last opening bracket and its colon
    let name := (value.reverse.takeWhile (· != '[')).reverse.drop 1
    let front := value.take (value.length - (name.length + 2))
    (namedClass name).map (front ++ ·)
  else none

/-- A character inside square brackets. -/
def readInSquare (d : Draft) (c : Char) : Draft :=
  let value := d.last.value
  let d := if c = ':' ∧ value.tail.contains '[' then d.mapLast ({ · with hasClass := true }) else d
  match if c = ':' then closedClass value else none with
  | some listed =>
    let d := { d.mapLast ({ · with value := listed }) with stale := true }
    let d := d.skip 1
    match d.tokens with
    | [square, begin_] =>
      if begin_.written = [] then
        { d with tokens := [square, { begin_ with output := some Phrase.someChar }] }
      else d
    | _ => d
  | none =>
    if (c = '[' ∧ d.next? ≠ some ':') ∨ (c = '-' ∧ d.next? = some ']') ∨ c = ']' then
      d.extendLast ['\\', c]
    else if c = '!' ∧ value = ['['] then d.extendLast ['^']
    else d.extendLast [c]

/-- A closing square bracket that ends a set.  A set without special characters is also
    matched by its own text, and a negated set never matches a slash. -/
def closeSquare (d : Draft) : Draft :=
  let d := { d with inSquare := false, opened := d.opened.drop 1 }
  let inside := d.last.value.tail
  let d :=
    d.extendLast
      (if !d.last.hasClass ∧ inside.head? = some '^' ∧ !inside.contains '/' then ['/', ']'] else [']'])
  if inside.any isSpecial then d
  else
    let value := d.last.value
    let both := Phrase.of "(?:" ++ escapeSpecial value ++ '|' :: value ++ [')']
    ((d.unwrite value.length).mapLast ({ · with value := both })).write both

/-- An opening square bracket; without a closing one it stands for itself. -/
def openSquare (d : Draft) : Draft :=
  if d.rest.contains ']' then
    { d with inSquare := true, opened := .square :: d.opened }.push { kind := .square, value := ['['] }
  else d.push { kind := .square, value := ['\\', '['] }

/-- A sign with the parenthesis behind it opens a group. -/
def openGroup (d : Draft) (kind : TokenKind) (sign : Char) : Draft :=
  let group : OpenGroup := ⟨sign, d.parentheses, []⟩
  let d := { d with parentheses := d.parentheses + 1, opened := .parenthesis :: d.opened }
  let d := d.pushAs kind [sign] (if d.output = [] then Phrase.someChar else [])
  let d := (d.skip 1).pushAs .parenthesis ['('] (groupOpening sign)
  { d with groups := group :: d.groups }

/-- What a negated group closes with.  `translate` gives the expression of a glob; the group
    must not match together with an ending that follows it. -/
def negationClosing (translate : List Char → List Char) (inside rest : List Char) : List Char :=
  let run :=
    if 1 < inside.length ∧ inside.contains '/' then Phrase.anyPath else Phrase.nameRun
  let isEnding : Bool :=
    match rest with
    | '.' :: s => !s.isEmpty && s.all fun c => c != '\\' && c != '/' && c != '.'
    | _ => false
  if inside.contains '*' && isEnding then
    [')'] ++ translate rest ++ [')'] ++ run ++ [')']
  else if run ≠ Phrase.nameRun ∨ rest.all (· == ')') then Phrase.of ")$))" ++ run
  else groupClosing '!'

/-- A closing parenthesis. -/
def closeParenthesis (translate : List Char → List Char) (d : Draft) : Draft :=
  let leave (d : Draft) : Draft :=
    { d with parentheses := d.parentheses - 1, opened := d.opened.drop 1 }
  match d.groups with
  | g :: gs =>
    if d.parentheses = g.parentheses + 1 then
      let closing :=
        if g.sign = '!' then negationClosing translate g.inside d.rest else groupClosing g.sign
      leave ({ d with groups := gs }.pushAs .parenthesis [')'] closing)
    else leave (d.pushAs .parenthesis [')'] (if d.parentheses = 0 then ['\\', ')'] else [')']))
  | [] => leave (d.pushAs .parenthesis [')'] (if d.parentheses = 0 then ['\\', ')'] else [')']))

/-- An opening brace. -/
def openBrace (d : Draft) : Draft :=
  let brace : OpenBrace := ⟨false, false, d.output.length, d.tokens.length⟩
  { d with braces := brace :: d.braces, opened := .brace :: d.opened }.pushAs .brace ['{'] ['(']

/-- The characters between two texts, or both texts if they bound no range. -/
def spanned (bounds : List (List Char)) : List Char :=
  let sorted := bounds.mergeSort fun a b => leUnits (String.ofList a) (String.ofList b)
  let set := '[' :: ['-'].intercalate sorted ++ [']']
  if (Regex.ofText? set).isSome then set else ['.', '.'].intercalate (sorted.map escapeSpecial)

/-- A closing brace: an alternative, a range, or if neither was met inside, braces that
    stand for themselves. -/
def closeBrace (d : Draft) : Draft :=
  match d.braces with
  | [] => d.pushAs .text ['}'] ['}']
  | b :: outer =>
    let leave (d : Draft) : Draft := { d with braces := outer, opened := d.opened.drop 1 }
    if b.hasDots then
      let inside := d.tokens.takeWhile (·.kind != .brace)
      let bounds := (inside.filter (·.kind != .dots)).map (·.value)
      let d := { d with tokens := d.tokens.drop (inside.length + 1), stale := true }
      leave (d.pushAs .brace ['}'] (spanned bounds.reverse))
    else if b.hasComma then leave (d.pushAs .brace ['}'] [')'])
    else
      let inside := d.tokens.take (d.tokens.length - b.tokenCount)
      let literal : Token → Token := fun t => { t with value := ['\\', '{'], output := some ['\\', '{'] }
      let inside := inside.dropLast ++ (inside.getLast?.map literal).toList
      let written := (inside.reverse.map Token.writtenOrValue).flatten
      let d :=
        { d with
          tokens := inside ++ d.tokens.drop inside.length
          output := d.output.take b.outputLength ++ written }
      leave (d.pushAs .brace ['\\', '}'] ['\\', '}'])

/-- A comma; directly inside braces it parts alternatives. -/
def readComma (d : Draft) : Draft :=
  match d.braces, d.opened with
  | b :: outer, .brace :: _ =>
    { d with braces := { b with hasComma := true } :: outer }.pushAs .comma [','] ['|']
  | _, _ => d.pushAs .comma [','] [',']

/-- A slash; `./` at the beginning is left aside. -/
def readSlash (d : Draft) : Draft :=
  if d.last.kind = .dot ∧ d.taken = d.start + 2 then
    { d with start := d.taken, output := [], tokens := d.tokens.drop 1 }
  else d.pushAs .slash ['/'] Phrase.slash

/-- A dot; two of them in braces may make a range. -/
def readDot (d : Draft) : Draft :=
  let plain : Draft :=
    if (d.braces.length : Int) + d.parentheses = 0 ∧ d.last.kind ≠ .start ∧ d.last.kind ≠ .slash then
      d.pushAs .text ['.'] Phrase.dot
    else d.pushAs .dot ['.'] Phrase.dot
  match d.braces with
  | b :: outer =>
    if d.last.kind = .dot then
      { d with braces := { b with hasDots := true } :: outer }.mapLast fun t =>
        { t with
          kind := .dots
          value := t.value ++ ['.']
          output := some ((if t.value = ['.'] then Phrase.dot else t.written) ++ ['.']) }
    else plain
  | [] => plain

/-- Does a group open behind the sign that was read last? -/
def startsGroup (d : Draft) : Bool := d.next? == some '(' && d.afterNext? != some '?'

/-- Is there an angle bracket in the text that begins a look behind or the name of a group? -/
def hasAngle : List Char → Bool
  | [] => false
  | c :: r =>
    (c == '<' &&
      (r.head? == some '=' || r.head? == some '!' ||
        (!(r.takeWhile isWordChar).isEmpty && (r.dropWhile isWordChar).head? == some '>'))) ||
      hasAngle r

/-- A question mark: one unit of a name, a group that may be missing, or behind a
    parenthesis a sign of the expression. -/
def readQuestion (d : Draft) : Draft :=
  if d.last.value ≠ ['('] ∧ d.startsGroup then d.openGroup .other '?'
  else if d.last.kind = .parenthesis then
    let marks := d.next? = some '!' ∨ d.next? = some '=' ∨ d.next? = some '<' ∨ d.next? = some ':'
    if (d.last.value = ['('] ∧ ¬marks) ∨ (d.next? = some '<' ∧ !hasAngle d.rest) then
      d.pushAs .text ['?'] ['\\', '?']
    else d.pushText ['?']
  else d.pushAs .other ['?'] Phrase.nameChar

/-- A stretch of text from its first character on. -/
def readPlain (d : Draft) (c : Char) : Draft :=
  let more := d.rest.takeWhile isPlain
  (d.skip more.length).pushText ((if c = '$' ∨ c = '^' then ['\\', c] else [c]) ++ more)

/-- An exclamation mark: a negated group, at the beginning a negation of the whole glob, else text. -/
def readExclamation (d : Draft) : Draft :=
  let looks := ['!', '=', '<', ':'].any fun c => d.rest[2]? == some c
  if d.next? = some '(' ∧ (d.afterNext? ≠ some '?' ∨ !looks) then d.openGroup .other '!'
  else if d.taken = 1 then
    -- further exclamation marks turn the negation round and round again
    let rec more : List Char → Nat
      | '!' :: s =>
        if s.head? = some '(' ∧ s[1]? ≠ some '?' then 0 else more s + 1
      | _ => 0
    let n := more d.rest
    let d := d.skip n
    if n % 2 = 0 then { d with negated := true, start := d.start + n + 1 }
    else { d with start := d.start + n }
  else d.readPlain '!'

/-- A plus sign. -/
def readPlus (d : Draft) : Draft :=
  if d.startsGroup then d.openGroup .other '+'
  else if d.last.value = ['('] then d.pushAs .other ['+'] ['\\', '+']
  else if d.last.kind = .square ∨ d.last.kind = .parenthesis ∨ d.last.kind = .brace ∨
      0 < d.parentheses then
    d.push { kind := .other, value := ['+'] }
  else d.push { kind := .other, value := ['\\', '+'] }

/-- An at sign. -/
def readAt (d : Draft) : Draft :=
  if d.startsGroup then d.push { kind := .other, value := ['@'], output := some [] } true
  else d.pushText ['@']

/-- How many further `/**` follow that change nothing. -/
def repeatedCrossings : List Char → Nat
  | '/' :: '*' :: '*' :: s => if s = [] ∨ s.head? = some '/' then repeatedCrossings s + 1 else 0
  | _ => 0

/-- The last token made two stars that cross slashes. -/
def cross (t : Token) (output : List Char) : Token :=
  { t with kind := .crossing, value := t.value ++ ['*'], output := some output }

/-- A second star behind a star: a whole name of two stars crosses slashes. -/
def readSecondStar (d : Draft) : Draft :=
  match d.tokens with
  | star :: prior :: earlier =>
    let isStart := prior.kind = .slash ∨ prior.kind = .start
    let inBraces := !d.braces.isEmpty ∧ (prior.kind = .comma ∨ prior.kind = .brace)
    if ¬isStart ∧ prior.kind ≠ .parenthesis ∧ ¬inBraces then d.pushAs .star ['*'] []
    else
      let d := d.skip (3 * repeatedCrossings d.rest)
      let beforeIsStart := (earlier.head?.map (·.kind)).getD .start = .start
      let afterStar :=
        (earlier.head?.map fun t => t.kind == .star || t.kind == .crossing).getD false
      -- the slash before the stars is put into one group with them
      let grouped (output : List Char) : Draft :=
        let d := d.unwrite (prior.written.length + star.written.length)
        let slash := Phrase.of "(?:" ++ prior.written
        { d with
          tokens := cross star output :: { prior with output := some slash } :: earlier
          output := d.output ++ slash ++ output }
      let alone (output : List Char) : Draft :=
        { d with tokens := cross star output :: prior :: earlier, output }
      let withSlash (d : Draft) : Draft := (d.skip 1).pushAs .slash ['/'] []
      if prior.kind = .start ∧ d.rest = [] then alone Phrase.anyPath
      else if prior.kind = .slash ∧ ¬beforeIsStart ∧ !afterStar ∧ d.rest = [] then
        grouped (Phrase.anyPath ++ Phrase.of "|$)")
      else if prior.kind = .slash ∧ ¬beforeIsStart ∧ d.next? = some '/' then
        let ending := if d.afterNext? = none then [] else ['|', '$']
        withSlash
          (grouped
            (Phrase.anyPath ++ Phrase.slash ++ '|' :: Phrase.slash ++ ending ++ [')']))
      else if prior.kind = .start ∧ d.next? = some '/' then
        withSlash
          (alone
            (Phrase.of "(?:^|" ++ Phrase.slash ++ '|' :: Phrase.anyPath ++ Phrase.slash ++ [')']))
      else
        let d := d.unwrite star.written.length
        { d with
          tokens := cross star Phrase.anyPath :: prior :: earlier
          output := d.output ++ Phrase.anyPath }
  | _ => d

/-- A star. -/
def readStar (d : Draft) : Draft :=
  if d.last.kind = .crossing ∨ d.last.isRun then
    { d.mapLast fun t =>
        { t with kind := .star, isRun := true, value := t.value ++ ['*'], output := some Phrase.nameRun }
      with stale := true }
  else if d.next? = some '(' ∧ d.afterNext? ≠ none ∧ d.afterNext? ≠ some '?' then d.openGroup .star '*'
  else if d.last.kind = .star then d.readSecondStar
  else
    let d :=
      if d.taken = d.start + 1 ∨ d.last.kind = .slash ∨ d.last.kind = .dot then
        let d := d.writeLast (if d.last.kind = .dot then Phrase.noFurtherDot else Phrase.noDots)
        if d.next? = some '*' then d else d.writeLast Phrase.someChar
      else d
    d.pushAs .star ['*'] Phrase.nameRun

/-- One character, already taken from what is left. -/
def readChar (translate : List Char → List Char) (d : Draft) (c : Char) : Draft :=
  if c = '\x00' then d
  else if c = '\\' then d.readBackslash
  else if d.inSquare ∧ (c ≠ ']' ∨ d.last.value = ['['] ∨ d.last.value = ['[', '^']) then
    d.readInSquare c
  else if d.quoted ∧ c ≠ '"' then d.extendLast (escapeSpecial [c])
  else
    match c with
    | '"' => { d with quoted := !d.quoted }
    | '(' =>
      { d with parentheses := d.parentheses + 1, opened := .parenthesis :: d.opened }.push
        { kind := .parenthesis, value := ['('] }
    | ')' => d.closeParenthesis translate
    | '[' => d.openSquare
    | ']' => if d.inSquare then d.closeSquare else d.pushAs .text [']'] ['\\', ']']
    | '{' => d.openBrace
    | '}' => d.closeBrace
    | '|' => d.pushText ['|']
    | ',' => d.readComma
    | '/' => d.readSlash
    | '.' => d.readDot
    | '?' => d.readQuestion
    | '!' => d.readExclamation
    | '+' => d.readPlus
    | '@' => d.readAt
    | '*' => d.readStar
    | _ => d.readPlain c

/-- Reads all characters that are left. Each round takes one, so their number is fuel enough. -/
def readAll (translate : List Char → List Char) : Nat → Draft → Draft
  | 0, d => d
  | fuel + 1, d =>
    match d.rest with
    | [] => d
    | c :: s => readAll translate fuel (readChar translate { d with rest := s, taken := d.taken + 1 } c)

end Draft

/-- A glob with a shorter name for the same files. -/
def simplified (glob : List Char) : List Char :=
  if glob = Phrase.of "***" then ['*']
  else if glob = Phrase.of "**/**" ∨ glob = Phrase.of "**/**/**" then ['*', '*']
  else glob

/-- The glob without a `./` in front. -/
def withoutDotSlash (glob : List Char) : List Char :=
  match glob with
  | '.' :: '/' :: s => s
  | s => s

/-- A glob without slashes, brackets and quotation marks, character by character: equal
    special characters in a row share one backslash.  `hasBackslash` tells whether a
    backslash of the glob's own was met. -/
def plainExpression : Nat → List Char → List Char × Bool
  | 0, _ => ([], false)
  | _, [] => ([], false)
  | fuel + 1, c :: s =>
    if isWordChar c then
      let (more, hasBackslash) := plainExpression fuel s
      (c :: more, hasBackslash)
    else
      let escaped := c = '\\' ∧ (s.head?.map fun n => !isWordChar n).getD false
      let whole := if escaped then s else c :: s
      let first := if escaped then s.headD c else c
      let run := (whole.takeWhile (· == first)).length
      let (more, hasBackslash) := plainExpression fuel (whole.drop run)
      let times (s : List Char) (n : Nat) : List Char := (List.replicate n s).flatten
      let front := if escaped then ['\\'] else []
      if first = '\\' then (front ++ List.replicate run '\\' ++ more, true)
      else
        let written :=
          if first = '?' then
            if escaped then ['\\', '?'] ++ times Phrase.nameChar (run - 1)
            else times Phrase.nameChar run
          else if first = '.' then times Phrase.dot run
          else if first = '*' then
            if escaped then ['\\', '*'] ++ (if 1 < run then Phrase.nameRun else [])
            else Phrase.nameRun
          else '\\' :: List.replicate run first
        (written ++ more, hasBackslash)

/-- The text with one backslash for an odd and two for an even number of backslashes in a row. -/
def pairBackslashes : Nat → List Char → List Char
  | 0, _ => []
  | _, [] => []
  | fuel + 1, c :: s =>
    if c = '\\' then
      let run := ((c :: s).takeWhile (· == '\\')).length
      (if run % 2 = 0 then ['\\', '\\'] else ['\\']) ++ pairBackslashes fuel ((c :: s).drop run)
    else c :: pairBackslashes fuel s

/-- The longest glob that is matched, in UTF-16 units. -/
def longest : Nat := 65536

/-- What the whole of a glob is written as, and whether it stands for everything else. -/
def drafted (translate : List Char → List Char) (glob : List Char) : List Char × Bool :=
  let glob := withoutDotSlash glob
  let d := Draft.readAll translate glob.length { rest := glob }
  (d.finish, d.negated)

/-- What the ending behind a negated group is written as.  It holds one dot, so no such
    ending is inside. -/
def endingExpression (ending : List Char) : List Char := (drafted (fun _ => []) ending).1

/-- What a glob is written as, if it is one of the common short ones or one of them with an extension. -/
def shortExpression : Nat → List Char → Option (List Char)
  | 0, _ => none
  | fuel + 1, glob =>
    let path := Phrase.of "(?:" ++ Phrase.noDotsAnywhere ++ Phrase.anyPath ++ Phrase.slash ++ [')', '?']
    let extended := Phrase.nameRun ++ Phrase.dot ++ Phrase.someChar ++ Phrase.nameRun
    match String.ofList glob with
    | "*" => some (Phrase.noDotsAnywhere ++ Phrase.someChar ++ Phrase.nameRun)
    | ".*" => some (Phrase.dot ++ Phrase.someChar ++ Phrase.nameRun)
    | "*.*" => some (Phrase.noDotsAnywhere ++ extended)
    | "*/*" =>
      some (Phrase.noDotsAnywhere ++ Phrase.nameRun ++ Phrase.slash ++ Phrase.someChar ++
        Phrase.noDots ++ Phrase.nameRun)
    | "**" => some (Phrase.noDotsAnywhere ++ Phrase.anyPath)
    | "**/*" => some (path ++ Phrase.noDots ++ Phrase.someChar ++ Phrase.nameRun)
    | "**/*.*" => some (path ++ Phrase.noDots ++ extended)
    | "**/.*" => some (path ++ Phrase.dot ++ Phrase.someChar ++ Phrase.nameRun)
    | _ =>
      let extension := (glob.reverse.takeWhile (· != '.')).reverse
      if extension.length = glob.length ∨ extension = [] ∨ !extension.all isWordChar then none
      else
        (shortExpression fuel (glob.take (glob.length - extension.length - 1))).map
          (· ++ Phrase.dot ++ extension)

/-- The text of the expression that a glob is. -/
def expression (glob : List Char) : List Char :=
  let glob := simplified glob
  let short :=
    if glob.head? = some '.' ∨ glob.head? = some '*' then
      (shortExpression (glob.length + 1) (withoutDotSlash glob)).map (· ++ Phrase.slash ++ ['?'])
    else none
  let (output, negated) :=
    match short with
    | some output => (output, false)
    | none =>
      let bare := withoutDotSlash glob
      let isPlainest :=
        bare.head? ≠ some '*' ∧ bare.head? ≠ some '!' ∧
          !bare.any fun c => "/()[]\x7b\x7d\"".toList.contains c
      if isPlainest then
        let (output, hasBackslash) := plainExpression bare.length bare
        (if hasBackslash then pairBackslashes output.length output else output, false)
      else drafted endingExpression glob
  let whole := Phrase.of "^(?:" ++ output ++ Phrase.of ")$"
  if negated then Phrase.of "^(?!" ++ whole ++ Phrase.of ").*$" else whole

/-- The expression that a glob is; `none` if it makes none and so matches nothing. -/
def regex? (glob : List Char) : Option Regex := Regex.ofText? (expression glob)

end SshDial.Glob

import SshDial.Number.Read
import SshDial.Text.Units

/-! # Braces — the texts that a glob with alternatives stands for

    `{a,b}` stands for each of its alternatives and `{1..3}` for each step of a range.

    `Braces.read` cuts a glob into pieces, `Piece.meanings` lists the texts that a piece stands
    for, and `Braces.writeOut` puts both together.  Braces without a comma or a range, braces
    behind a dollar sign and braces that are never closed stand for themselves. -/

namespace SshDial.Glob

open SshDial.Text

/-- Why a glob cannot be followed at all. -/
inductive Fault where
  /-- Braces around more text than is read. -/
  | longBraces (length : Nat)
  /-- A range of too many steps. -/
  | wideRange
  /-- Parentheses inside braces that are never closed. -/
  | tangled
  /-- More text than is matched. -/
  | long (length : Nat)
  /-- A directory under whose name nothing can be gathered. -/
  | reservedName
  /-- The directory to search is no directory. -/
  | unlistable (directory : String)
  /-- The path of a single file leads through something that is no directory. -/
  | unreachable (path : String)
  deriving DecidableEq, Repr, Inhabited

/-- A piece of a glob with braces. -/
inductive Piece where
  | text (s : List Char)
  | comma
  | dot
  /-- The two dots of a range. -/
  | dots
  /-- Closed braces and the pieces inside; `literal` braces stand for themselves. -/
  | braces (literal ranged : Bool) (inside : List Piece)
  /-- Closed parentheses and the pieces inside, the parentheses included. -/
  | parentheses (inside : List Piece)
  deriving Repr, Inhabited

/-- What an open bracket of the text belongs to. -/
inductive FrameKind where
  | outermost
  | braces
  | parentheses
  deriving DecidableEq, Repr, Inhabited

/-- Text that is being read inside brackets that are still open; the last piece stands first. -/
structure Frame where
  kind : FrameKind
  /-- Do the braces follow a dollar sign, or braces that do? -/
  afterDollar : Bool := false
  /-- Do two dots stand where no range can have them? -/
  misplaced : Bool := false
  hasComma : Bool := false
  ranges : Nat := 0
  pieces : List Piece := []
  deriving Repr, Inhabited

mutual

/-- A piece as it was written. -/
def Piece.spelling : Piece → List Char
  | .text s => s
  | .comma => [',']
  | .dot => ['.']
  | .dots => ['.', '.']
  | .braces _ _ inside => '{' :: spellings inside ++ ['}']
  | .parentheses inside => spellings inside

/-- Pieces as they were written. -/
def spellings : List Piece → List Char
  | [] => []
  | p :: ps => p.spelling ++ spellings ps

end

namespace Frame

/-- The frame with text added: text goes on the text before it, a single dot becomes text
    with it, and text right after parentheses is kept with them. -/
def addText (f : Frame) (s : List Char) : Frame :=
  { f with pieces :=
      match f.pieces with
      | .text t :: ps => .text (t ++ s) :: ps
      | .dot :: ps => .text ('.' :: s) :: ps
      | .parentheses inside :: ps => .parentheses (inside ++ [.text s]) :: ps
      | ps => .text s :: ps }

/-- The frame with a piece added. -/
def add (f : Frame) (p : Piece) : Frame := { f with pieces := p :: f.pieces }

/-- Does the text so far end in a dollar sign? -/
def endsInDollar (f : Frame) : Bool :=
  match f.pieces with
  | .text t :: _ => t.getLast? == some '$'
  | .parentheses inside :: _ => (spellings inside).getLast? == some '$'
  | _ => false

/-- A comma between braces. What looked like a range before it was only text. -/
def addComma (f : Frame) : Frame :=
  let pieces := if 0 < f.ranges then [.text (spellings f.pieces.reverse)] else f.pieces
  { f with hasComma := true, ranges := 0, pieces := .comma :: pieces }

/-- A dot between braces before any comma.  Two dots make a range if they are the second or
    the fourth piece; three make text. -/
def addDot (f : Frame) : Frame :=
  match f.pieces with
  | .dot :: ps =>
    if ps.length = 1 ∨ ps.length = 3 then
      { f with ranges := f.ranges + 1, pieces := .dots :: ps }
    else { f with misplaced := true, ranges := 0, pieces := .text ['.', '.'] :: ps }
  | .dots :: ps =>
    let before : Frame := { f with ranges := f.ranges - 1, pieces := ps }
    before.addText ['.', '.', '.']
  | _ => f.add .dot

/-- The piece that a closed frame is. -/
def closed (f : Frame) : Piece :=
  match f.kind with
  | .parentheses => .parentheses f.pieces.reverse
  | _ => .braces (f.afterDollar || f.misplaced) (0 < f.ranges) f.pieces.reverse

end Frame

/-- The text from behind an opening square bracket up to the closing one, and the text after
    it; brackets inside nest, and what follows a backslash is kept as it is. -/
def squareText : Nat → List Char → List Char × List Char
  | _, [] => ([], [])
  | _, ['\\'] => (['\\'], [])
  | depth, '\\' :: c :: s =>
    let (taken, rest) := squareText depth s
    ('\\' :: c :: taken, rest)
  | depth, '[' :: s =>
    let (taken, rest) := squareText (depth + 1) s
    ('[' :: taken, rest)
  | depth, ']' :: s =>
    if depth = 0 then ([']'], s)
    else
      let (taken, rest) := squareText (depth - 1) s
      (']' :: taken, rest)
  | depth, c :: s =>
    let (taken, rest) := squareText depth s
    (c :: taken, rest)

/-- The text up to a closing quotation mark, and the text after it. -/
def quotedText (mark : Char) : List Char → List Char × List Char
  | [] => ([], [])
  | ['\\'] => (['\\'], [])
  | '\\' :: c :: s =>
    let (taken, rest) := quotedText mark s
    ('\\' :: c :: taken, rest)
  | c :: s =>
    if c = mark then ([], s)
    else
      let (taken, rest) := quotedText mark s
      (c :: taken, rest)

namespace Braces

/-- A frame that is never closed becomes plain pieces of the frame around it: what stood for
    itself inside, with its opening brace. -/
def opened (f : Frame) : List Piece :=
  let plain : Piece → Piece
    | .comma => .text [',']
    | .dot => .text ['.']
    | .dots => .text ['.', '.']
    | p => p
  let inside := f.pieces.reverse.map plain
  if f.kind = .braces then .text ['{'] :: inside else inside

/-- Are there parentheses among the pieces of braces that are never closed, or of
    parentheses inside such braces? The outermost frame stands first. -/
def isTangled : Bool → List Frame → Bool
  | _, [] => false
  | inBraces, f :: frames =>
    let inBraces := inBraces || f.kind == .braces
    (inBraces && f.pieces.any fun p => match p with
      | .parentheses _ => true
      | _ => false) || isTangled inBraces frames

/-- Reads a glob into its pieces, from the frames that are open, the innermost first.  Each
    round takes a character, so the length of the text is fuel enough. -/
def read : Nat → List Char → Frame → List Frame → List Frame
  | 0, _, f, outer => f :: outer
  | fuel + 1, s, f, outer =>
    match s with
    | [] => f :: outer
    | c :: s =>
      let inBraces := f.kind == .braces || outer.any (·.kind == .braces)
      if c.toNat = 0xFEFF ∨ c.toNat = 0xA0 then read fuel s f outer
      else if c = '\\' then read fuel (s.drop 1) (f.addText ('\\' :: s.take 1)) outer
      else if c = ']' then read fuel s (f.addText ['\\', ']']) outer
      else if c = '[' then
        let (taken, rest) := squareText 0 s
        read fuel rest (f.addText ('[' :: taken)) outer
      else if c = '(' then
        read fuel s { kind := .parentheses, pieces := [.text ['(']] } (f :: outer)
      else if c = ')' then
        match f.kind, outer with
        | .parentheses, around :: outer =>
          read fuel s (around.add (f.addText [')']).closed) outer
        | _, _ => read fuel s (f.addText [')']) outer
      else if c = '"' ∨ c = '\'' ∨ c.toNat = 0x60 then
        let (taken, rest) := quotedText c s
        read fuel rest (f.addText taken) outer
      else if c = '{' then
        let afterDollar := f.endsInDollar || f.afterDollar
        read fuel s { kind := .braces, afterDollar } (f :: outer)
      else if c = '}' then
        match f.kind, outer with
        | .braces, around :: outer => read fuel s (around.add f.closed) outer
        | _, _ => read fuel s (f.addText ['}']) outer
      else if c = ',' ∧ inBraces then
        read fuel s (if f.kind = .braces then f.addComma else f.add .comma) outer
      else if c = '.' ∧ f.kind = .braces ∧ !f.hasComma then read fuel s f.addDot outer
      else read fuel s (f.addText [c]) outer

/-- The whole number that a text writes, if it writes one. -/
def wholeNumber (s : List Char) : Option Int := (Number.read (String.ofList s)).toInt?

/-- The steps from one whole number to another, both included where they are met. -/
def steps (first last : Int) (stride : Nat) : List Int :=
  let count := (last - first).natAbs / stride + 1
  (List.range count).map fun k =>
    if first ≤ last then first + (k * stride : Nat) else first - (k * stride : Nat)

/-- Is the number written with zeros in front? -/
def isPadded (s : List Char) : Bool :=
  let digits := if s.head? = some '-' then s.drop 1 else s
  digits != ['0'] && digits.head? == some '0'

/-- A number with zeros in front up to a width, the sign counted. -/
def padded (width : Nat) (i : Int) : List Char :=
  let digits := (toString i.natAbs).toList
  let sign := if i < 0 then ['-'] else []
  sign ++ List.replicate (width - digits.length - sign.length) '0' ++ digits

/-- The texts of a range between two texts, by a step; numbers run by value and single
    characters by code. -/
def range (first last step : List Char) : List (List Char) :=
  let stride : Option Int := if step = [] then some 1 else wholeNumber step
  match stride with
  | none => []
  | some stride =>
    let stride := if stride = 0 then 1 else stride.natAbs
    if first = [] ∨ last = [] then []
    else
      match wholeNumber first, wholeNumber last with
      | some a, some b =>
        let width :=
          if isPadded first || isPadded last || isPadded step then
            [first, last, step, ['1']].foldl (fun n s => if n < s.length then s.length else n) 0
          else 0
        (steps a b stride).map (padded width)
      | a, b =>
        if (a.isNone && 1 < (units first).length) || (b.isNone && 1 < (units last).length) then []
        else
          match first.head?, last.head? with
          | some x, some y =>
            (steps x.toNat y.toNat stride).map fun n => [Char.ofNat n.toNat]
          | _, _ => []

/-- Do two numbers without a step write a range of more than a thousand? -/
def isWide : List (List Char) → Bool
  | [first, last] =>
    match wholeNumber first, wholeNumber last with
    | some a, some b =>
      (trim first != [] && trim last != []) && decide (1000 ≤ b - a)
    | _, _ => false
  | _ => false

/-- The texts that range braces stand for; with bounds that make no range they stand for
    themselves. -/
def rangeMeanings (inside : List Piece) : Except Fault (List (List Char)) :=
  let bounds := inside.filterMap fun p => match p with
    | .text s => some s
    | _ => none
  if isWide bounds then .error .wideRange
  else
    let texts :=
      match bounds with
      | first :: last :: more => range first last (more.headD [])
      | _ => []
    .ok (if texts = [] then [(Piece.braces true true inside).spelling] else texts)

/-- Every text of the first list followed by every text of the second. -/
def joined (front back : List (List Char)) : List (List Char) :=
  front.flatMap fun s => back.map (s ++ ·)

/-- Does a first alternative stand here that holds nothing but empty quotations? -/
def startsQuotedEmpty (inside : List Piece) : Bool :=
  let first := inside.takeWhile fun p => match p with
    | .comma => false
    | _ => true
  !first.isEmpty && (spellings first).isEmpty

/-- What braces stand for, given the texts of each alternative between their commas. -/
def choose (inside : List Piece) (alternatives : List (List (List Char))) : List (List Char) :=
  let kept := if startsQuotedEmpty inside then alternatives.drop 1 else alternatives
  match inside, kept with
  | [], _ => [['{', '}']]
  | _, [] => [[]]
  | _, _ => if alternatives.length = 1 then kept.flatten.map ('{' :: · ++ ['}']) else kept.flatten

end Braces

mutual

/-- The texts that a piece stands for. -/
def Piece.meanings : Piece → Except Fault (List (List Char))
  | .text s => .ok [s]
  | .comma => .ok [[',']]
  | .dot => .ok [['.']]
  | .dots => .ok [['.', '.']]
  | .parentheses inside => sequence inside
  | .braces literal ranged inside =>
    if literal then .ok [(Piece.braces literal ranged inside).spelling]
    else if ranged then Braces.rangeMeanings inside
    else (alternatives inside).map (Braces.choose inside)

/-- The texts that pieces in a row stand for. -/
def sequence : List Piece → Except Fault (List (List Char))
  | [] => .ok [[]]
  | p :: ps => do
    let front ← p.meanings
    let back ← sequence ps
    .ok (Braces.joined front back)

/-- The texts of each alternative between the commas of a row of pieces. -/
def alternatives : List Piece → Except Fault (List (List (List Char)))
  | [] => .ok [[[]]]
  | .comma :: ps => do
    let more ← alternatives ps
    .ok ([[]] :: more)
  | p :: ps => do
    let front ← p.meanings
    match ← alternatives ps with
    | [] => .ok [front]
    | back :: more => .ok (Braces.joined front back :: more)

end

namespace Braces

/-- The length up to which braces are read, in UTF-16 units. -/
def longest : Nat := 10000

/-- The texts that a glob with braces stands for, each once; a glob without a pair of braces
    stands for itself. -/
def writeOut (glob : List Char) : Except Fault (List (List Char)) :=
  let fromBrace := glob.dropWhile (· != '{')
  if !fromBrace.contains '}' || (units glob).length < 3 then .ok [glob]
  else if longest < (units glob).length then .error (.longBraces (units glob).length)
  else
    let frames := (read glob.length glob { kind := .outermost } []).reverse
    if isTangled false frames then .error .tangled
    else (sequence (frames.flatMap opened)).map List.eraseDups

end Braces

end SshDial.Glob

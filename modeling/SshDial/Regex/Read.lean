import SshDial.Regex.Basic

/-! # Reading expressions — the text of a regular expression

    `Regex.ofUnits?` answers `none` to a text that is no regular expression: an open or stray
    bracket, a repetition of nothing, a range that runs backwards.  Signs that have no meaning
    where they stand mean themselves. -/

namespace SshDial

open SshDial.Text

namespace Regex

/-- The ASCII character of a unit; any other unit has none. -/
def sign (u : Nat) : Option Char := if u < 128 then some (Char.ofNat u) else none

/-- Is the unit this character? -/
def isSign (u : Nat) (c : Char) : Bool := u == c.toNat

/-- Digits, letters and the white space of texts as ranges of units. -/
def digits : List (Nat × Nat) := [(0x30, 0x39)]

/-- Letters, digits and the underscore. -/
def wordUnits : List (Nat × Nat) := [(0x30, 0x39), (0x41, 0x5A), (0x5F, 0x5F), (0x61, 0x7A)]

/-- White space and line breaks. -/
def blanks : List (Nat × Nat) :=
  [(0x9, 0xD), (0x20, 0x20), (0xA0, 0xA0), (0x1680, 0x1680), (0x2000, 0x200A), (0x2028, 0x2029),
    (0x202F, 0x202F), (0x205F, 0x205F), (0x3000, 0x3000), (0xFEFF, 0xFEFF)]

/-- The ranges between ascending ranges, from a unit on. -/
def gaps : Nat → List (Nat × Nat) → List (Nat × Nat)
  | low, [] => if low ≤ 0xFFFF then [(low, 0xFFFF)] else []
  | low, (a, b) :: more =>
    if low < a then (low, a - 1) :: gaps (b + 1) more else gaps (b + 1) more

/-- The units that a letter after a backslash stands for, if it stands for a class of units. -/
def classOf (c : Char) : Option (List (Nat × Nat)) :=
  match c with
  | 'd' => some digits
  | 'D' => some (gaps 0 digits)
  | 'w' => some wordUnits
  | 'W' => some (gaps 0 wordUnits)
  | 's' => some blanks
  | 'S' => some (gaps 0 blanks)
  | _ => none

/-- The control character that a letter after a backslash stands for, if it stands for one. -/
def controlOf (c : Char) : Option Nat :=
  match c with
  | 't' => some 9
  | 'n' => some 10
  | 'v' => some 11
  | 'f' => some 12
  | 'r' => some 13
  | _ => none

/-- The value of a digit in a base up to 16, if the unit is one. -/
def digitValue (base u : Nat) : Option Nat :=
  let value :=
    if 0x30 ≤ u ∧ u ≤ 0x39 then some (u - 0x30)
    else if 0x41 ≤ u ∧ u ≤ 0x46 then some (u - 0x37)
    else if 0x61 ≤ u ∧ u ≤ 0x66 then some (u - 0x57)
    else none
  value.filter (· < base)

/-- The value of a list of digits, if all are digits of the base. -/
def valueOf (base : Nat) (s : List Nat) : Option Nat :=
  s.foldl (fun acc u => acc.bind fun n => (digitValue base u).map (n * base + ·)) (some 0)

/-- Exactly `count` hexadecimal digits and the units after them. -/
def hexDigits (count : Nat) (s : List Nat) : Option (Nat × List Nat) :=
  if (s.take count).length = count then (valueOf 16 (s.take count)).map fun n => (n, s.drop count)
  else none

/-- One unit written in octal: up to three digits, as long as the value stays below 256. -/
def octal : List Nat → Option (Nat × List Nat)
  | [] => none
  | a :: s =>
    (digitValue 8 a).map fun x =>
      match s with
      | [] => (x, [])
      | b :: r =>
        match digitValue 8 b with
        | none => (x, s)
        | some y =>
          match r with
          | [] => (x * 8 + y, [])
          | c :: q =>
            match digitValue 8 c with
            | some z => if x < 4 then (x * 64 + y * 8 + z, q) else (x * 8 + y, r)
            | none => (x * 8 + y, r)

/-- The single unit that stands after a backslash, and the units after it; a sign without a
    meaning means itself. -/
def escapedUnit : List Nat → Option (Nat × List Nat)
  | [] => none
  | u :: s =>
    match sign u with
    | some 'x' => some ((hexDigits 2 s).getD (u, s))
    | some 'u' => some ((hexDigits 4 s).getD (u, s))
    | some 'c' =>
      match s with
      | v :: r =>
        if ((sign v).map isLetter).getD false then some (v % 32, r) else some ('\\'.toNat, u :: s)
      | [] => some ('\\'.toNat, [u])
    | some c =>
      match controlOf c with
      | some v => some (v, s)
      | none => some ((octal (u :: s)).getD (u, s))
    | none => some (u, s)

/-- What stands in a bracketed set at one place: a unit, or the units of a class. -/
inductive Member where
  | unit (u : Nat)
  | any (ranges : List (Nat × Nat))

/-- The units of a member. -/
def Member.ranges : Member → List (Nat × Nat)
  | .unit u => [(u, u)]
  | .any ranges => ranges

/-- One member of a bracketed set and the units after it. -/
def readMember : List Nat → Option (Member × List Nat)
  | [] => none
  | u :: s =>
    if isSign u '\\' then
      match s with
      | [] => none
      | v :: r =>
        match (sign v).bind classOf with
        | some ranges => some (.any ranges, r)
        | none =>
          if isSign v 'b' then some (.unit 8, r)
          else if isSign v 'c' then
            match r with
            | w :: q =>
              if ((sign w).map isWordChar).getD false then some (.unit (w % 32), q)
              else some (.unit u, s)
            | [] => some (.unit u, s)
          else (escapedUnit s).map fun (x, q) => (.unit x, q)
    else some (.unit u, s)

/-- The members of a bracketed set up to its closing bracket, and the units after that.
    Every round takes a unit, so the length of the text is fuel enough. -/
def readMembers : Nat → List Nat → Option (List (Nat × Nat) × List Nat)
  | 0, _ => none
  | fuel + 1, s =>
    match s with
    | [] => none
    | u :: r =>
      if isSign u ']' then some ([], r)
      else do
        let (first, rest) ← readMember s
        match rest with
        | dash :: after =>
          if isSign dash '-' && !(after.head?.map (isSign · ']')).getD true then do
            let (last, rest) ← readMember after
            let listed ←
              match first, last with
              | .unit a, .unit b => if a ≤ b then some [(a, b)] else none
              | _, _ => some (first.ranges ++ (dash, dash) :: last.ranges)
            (readMembers fuel rest).map fun (more, rest) => (listed ++ more, rest)
          else (readMembers fuel rest).map fun (more, rest) => (first.ranges ++ more, rest)
        | [] => none

/-- A bracketed set, read from behind its opening bracket. -/
def readSet (s : List Nat) : Option (UnitSet × List Nat) :=
  let (negated, listed) :=
    match s with
    | u :: r => if isSign u '^' then (true, r) else (false, s)
    | [] => (false, [])
  (readMembers (listed.length + 1) listed).map fun (ranges, rest) => (⟨negated, ranges⟩, rest)

/-- The decimal number at the front of a text, if there is one. -/
def readNumber (s : List Nat) : Option (Nat × List Nat) :=
  let front := s.takeWhile fun u => (digitValue 10 u).isSome
  if front.isEmpty then none
  else (valueOf 10 front).map fun n => (n, s.drop front.length)

/-- The bounds of a counted repetition, read from behind its opening brace. -/
def readBounds (s : List Nat) : Option ((Nat × Option Nat) × List Nat) :=
  (readNumber s).bind fun (least, rest) =>
    match rest with
    | [] => none
    | u :: r =>
      if isSign u '}' then some ((least, some least), r)
      else if isSign u ',' then
        match readNumber r with
        | some (most, v :: q) => if isSign v '}' then some ((least, some most), q) else none
        | some (_, []) => none
        | none =>
          match r with
          | v :: q => if isSign v '}' then some ((least, none), q) else none
          | [] => none
      else none

/-- The bounds of a repetition, if one stands here. -/
def readRepetition : List Nat → Option ((Nat × Option Nat) × List Nat)
  | [] => none
  | u :: s =>
    match sign u with
    | some '*' => some ((0, none), s)
    | some '+' => some ((1, none), s)
    | some '?' => some ((0, some 1), s)
    | some '{' => readBounds s
    | _ => none

/-- The expression with the repetition that stands after it, if one does; its bounds must
    not run backwards. -/
def repeated (r : Regex) (s : List Nat) : Option (Regex × List Nat) :=
  match readRepetition s with
  | none => some (r, s)
  | some ((least, most), rest) =>
    if (most.map fun m => decide (m < least)).getD false then none
    else
      match rest with
      | u :: after =>
        if isSign u '?' then some (.rounds least most false r, after)
        else some (.rounds least most true r, rest)
      | [] => some (.rounds least most true r, [])

/-- The name that stands before a closing angle bracket, and the units after that. -/
def readName (s : List Nat) : Option (List Nat × List Nat) :=
  let name := s.takeWhile (!isSign · '>')
  let starts := name.head?.map fun u => !(digitValue 10 u).isSome
  if name.length < s.length ∧ starts = some true then some (name, s.drop (name.length + 1)) else none

/-- The names of the groups of a text in the order in which the groups open; a group may be
    without one.  Brackets and what follows a backslash open no group. -/
def groupNames : Bool → List Nat → List (Option (List Nat))
  | _, [] => []
  | inSet, u :: s =>
    if isSign u '\\' then
      match s with
      | [] => []
      | _ :: r => groupNames inSet r
    else if inSet then groupNames (!isSign u ']') s
    else if isSign u '[' then groupNames true s
    else if isSign u '(' then
      match s with
      | q :: mark :: v :: r =>
        if isSign q '?' then
          if isSign mark '<' && !isSign v '=' && !isSign v '!' then
            (readName (v :: r)).map (·.1) :: groupNames false s
          else groupNames false s
        else none :: groupNames false s
      | q :: _ => if isSign q '?' then groupNames false s else none :: groupNames false s
      | [] => [none]
    else groupNames false s

/-- How far a text has been read: the units left and the number of groups opened. -/
structure Rest where
  units : List Nat
  groups : Nat

mutual

/-- Alternatives between bars, up to the end or a closing parenthesis. -/
def readEither (names : List (Option (List Nat))) (dot : UnitSet) :
    Nat → Rest → Option (Regex × Rest)
  | 0, _ => none
  | fuel + 1, s => do
    let (first, s) ← readSequence names dot fuel s
    match s.units with
    | u :: r =>
      if isSign u '|' then do
        let (second, s) ← readEither names dot fuel { s with units := r }
        some (.either first second, s)
      else some (first, s)
    | [] => some (first, s)

/-- Pieces one after the other, up to the end, a bar or a closing parenthesis. -/
def readSequence (names : List (Option (List Nat))) (dot : UnitSet) :
    Nat → Rest → Option (Regex × Rest)
  | 0, _ => none
  | fuel + 1, s =>
    match s.units with
    | [] => some (.empty, s)
    | u :: _ =>
      if isSign u '|' || isSign u ')' then some (.empty, s)
      else do
        let (piece, s) ← readPiece names dot fuel s
        let (more, s) ← readSequence names dot fuel s
        some (.both piece more, s)

/-- One piece with the repetition after it. -/
def readPiece (names : List (Option (List Nat))) (dot : UnitSet) :
    Nat → Rest → Option (Regex × Rest)
  | 0, _ => none
  | fuel + 1, s =>
    let finish (r : Regex) (units : List Nat) : Option (Regex × Rest) :=
      (repeated r units).map fun (r, units) => (r, { s with units })
    let closed (repeatable : Bool) (inner : Rest) (wrap : Regex → Regex) :
        Option (Regex × Rest) := do
      let (body, after) ← readEither names dot fuel inner
      match after.units with
      | u :: r =>
        if isSign u ')' then
          if repeatable then
            (repeated (wrap body) r).map fun (r, units) => (r, { after with units })
          else some (wrap body, { after with units := r })
        else none
      | [] => none
    match s.units with
    | [] => none
    | u :: r =>
      match sign u with
      | some '^' => some (.atStart, { s with units := r })
      | some '$' => some (.atEnd, { s with units := r })
      | some '.' => finish (.one dot) r
      | some '[' => (readSet r).bind fun (set, rest) => finish (.one set) rest
      | some '*' => none
      | some '+' => none
      | some '?' => none
      | some '{' => if (readBounds r).isSome then none else finish (.one (.single u)) r
      | some '(' =>
        let opened := s.groups + 1
        match r with
        | q :: m :: rest =>
          if !isSign q '?' then closed true ⟨r, opened⟩ (.group opened)
          else
            match sign m with
            | some ':' => closed true ⟨rest, s.groups⟩ id
            | some '=' => closed true ⟨rest, s.groups⟩ (.look false false)
            | some '!' => closed true ⟨rest, s.groups⟩ (.look false true)
            | some '<' =>
              match rest with
              | v :: more =>
                if isSign v '=' then closed false ⟨more, s.groups⟩ (.look true false)
                else if isSign v '!' then closed false ⟨more, s.groups⟩ (.look true true)
                else
                  (readName rest).bind fun (name, more) =>
                    if (names.filter (· = some name)).length = 1 then
                      closed true ⟨more, opened⟩ (.group opened)
                    else none
              | [] => none
            | _ => none
        | [q] => if isSign q '?' then none else closed true ⟨r, opened⟩ (.group opened)
        | [] => none
      | some '\\' =>
        match r with
        | [] => none
        | v :: after =>
          match (sign v).bind classOf with
          | some ranges => finish (.one ⟨false, ranges⟩) after
          | none =>
            if isSign v 'b' then some (.atWordEdge false, { s with units := after })
            else if isSign v 'B' then some (.atWordEdge true, { s with units := after })
            else if isSign v 'k' && names.any (·.isSome) then
              match after with
              | w :: more =>
                if isSign w '<' then
                  (readName more).bind fun (name, more) =>
                    let index := names.idxOf (some name)
                    if index < names.length then finish (.again (index + 1)) more else none
                else none
              | [] => none
            else
              let referred := if isSign v '0' then none else readNumber r
              match referred with
              | some (n, more) =>
                if n ≤ names.length then finish (.again n) more
                else (escapedUnit r).bind fun (x, more) => finish (.one (.single x)) more
              | none => (escapedUnit r).bind fun (x, more) => finish (.one (.single x)) more
      | _ => finish (.one (.single u)) r

end

/-- Does the expression refer back to a group? -/
def refersBack : Regex → Bool
  | .again _ => true
  | .both a b => refersBack a || refersBack b
  | .either a b => refersBack a || refersBack b
  | .rounds _ _ _ r => refersBack r
  | .group _ r => refersBack r
  | .look _ _ r => refersBack r
  | _ => false

/-- The expression without its groups. -/
def withoutGroups : Regex → Regex
  | .both a b => .both (withoutGroups a) (withoutGroups b)
  | .either a b => .either (withoutGroups a) (withoutGroups b)
  | .rounds least most eager r => .rounds least most eager (withoutGroups r)
  | .group _ r => withoutGroups r
  | .look behind negated r => .look behind negated (withoutGroups r)
  | r => r

/-- The expression that a text writes, if it writes one, when the dot stands for the units
    of a set.  Between two units that are taken at most four reading functions call each
    other, which bounds their depth.  Groups are kept only if something refers back to
    them. -/
def ofUnitsWith? (dot : UnitSet) (text : List Nat) : Option Regex :=
  match readEither (groupNames false text) dot (4 * (text.length + 1)) ⟨text, 0⟩ with
  | some (r, rest) =>
    if rest.units.isEmpty then some (if refersBack r then r else withoutGroups r) else none
  | none => none

/-- The expression that a text writes, if it writes one. -/
def ofUnits? (text : List Nat) : Option Regex := ofUnitsWith? .inLine text

/-- The expression that a text writes, if it writes one. -/
def ofText? (text : List Char) : Option Regex := ofUnits? (units text)

end Regex

end SshDial

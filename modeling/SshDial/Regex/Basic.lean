import SshDial.Text.CaseFold
import SshDial.Text.Units
import SshDial.Text.Keyword

/-! # Regular expressions — over UTF-16 units, and what they match

    `Regex.reach` follows an expression from a list of places in a text to the list of places
    where it can end, the preferred ones first; a place is listed once, so following a part
    costs no more than the number of places allows.  A text matches if the expression can be
    followed from one of its places. -/

namespace SshDial

open SshDial.Text

/-- A set of units: those within one of the ranges, or if negated all others. -/
structure UnitSet where
  negated : Bool
  ranges : List (Nat × Nat)
  deriving DecidableEq, Repr, Inhabited

namespace UnitSet

/-- Is the unit in the set? -/
def contains (s : UnitSet) (u : Nat) : Bool :=
  s.ranges.any (fun r => decide (r.1 ≤ u) && decide (u ≤ r.2)) != s.negated

/-- The set of one unit. -/
def single (u : Nat) : UnitSet := ⟨false, [(u, u)]⟩

/-- Everything but a line break. -/
def inLine : UnitSet := ⟨true, [(0xA, 0xA), (0xD, 0xD), (0x2028, 0x2029)]⟩

/-- Every unit. -/
def all : UnitSet := ⟨true, []⟩

/-- The units of the set as letter case folds them. -/
def folded (s : UnitSet) : UnitSet :=
  ⟨s.negated, s.ranges.flatMap fun r =>
    (List.range' r.1 (r.2 + 1 - r.1)).map fun u => (fold u, fold u)⟩

theorem contains_single (u v : Nat) : (single u).contains v = true ↔ v = u := by
  simp [contains, single]
  omega

end UnitSet

/-- A regular expression. -/
inductive Regex where
  /-- The empty stretch. -/
  | empty
  | one (set : UnitSet)
  | both (first second : Regex)
  | either (first second : Regex)
  /-- At least and at most so many rounds; `eager` prefers many. -/
  | rounds (least : Nat) (most : Option Nat) (eager : Bool) (body : Regex)
  /-- What the body matches is held under the index. -/
  | group (index : Nat) (body : Regex)
  /-- What is held under the index, once more. -/
  | again (index : Nat)
  /-- The body matches from here on, or if `behind` up to here; nothing is taken. -/
  | look (behind negated : Bool) (body : Regex)
  | atStart
  | atEnd
  /-- Between a letter, digit or underscore and something else, or if negated anywhere else. -/
  | atWordEdge (negated : Bool)
  deriving DecidableEq, Repr, Inhabited

namespace Regex

/-- A place in a text, with what the groups hold. -/
structure Place where
  position : Nat
  held : List (Nat × List Nat) := []
  deriving DecidableEq, Repr, Inhabited

/-- Is there a letter, digit or underscore at the position? -/
def isWordAt (text : Array Nat) (position : Nat) : Bool :=
  match text[position]? with
  | some u => decide (u < 128) && isWordChar (Char.ofNat u)
  | none => false

/-- The places after `units`, if they stand at the place. -/
def Place.past (text : Array Nat) (p : Place) (units : List Nat) : Option Place :=
  if (text.toList.drop p.position).take units.length = units then
    some { p with position := p.position + units.length }
  else none

/-- What round after round reaches anew; a round that reaches nothing new is the last. -/
def laps (step : List Place → List Place) : Nat → List Place → List Place → List (List Place)
  | 0, _, _ => []
  | most + 1, seen, here =>
    match ((step here).filter (!seen.contains ·)).eraseDups with
    | [] => []
    | fresh => fresh :: laps step most (seen ++ fresh) fresh

/-- The places after at least and at most so many rounds from one place. -/
def afterRounds (step : List Place → List Place) (size least : Nat) (most : Option Nat)
    (eager : Bool) (p : Place) : List Place :=
  let first := (List.range least).foldl (fun here _ => (step here).eraseDups) [p]
  let further := match most with
    | some n => n - least
    | none => size + 1
  let all := first :: laps step further first first
  (if eager then all.reverse else all).flatten

/-- The places where the expression can end when it is followed from the given places. -/
def reach (text : Array Nat) : Regex → List Place → List Place
  | .empty, here => here
  | .one set, here =>
    here.filterMap fun p =>
      match text[p.position]? with
      | some u => if set.contains u then some { p with position := p.position + 1 } else none
      | none => none
  | .both first second, here => reach text second (reach text first here)
  | .either first second, here =>
    (here.flatMap fun p => reach text first [p] ++ reach text second [p]).eraseDups
  | .rounds least most eager body, here =>
    (here.flatMap (afterRounds (reach text body) text.size least most eager)).eraseDups
  | .group index body, here =>
    here.flatMap fun p =>
      (reach text body [p]).map fun q =>
        let taken := (text.toList.drop p.position).take (q.position - p.position)
        { q with held := (index, taken) :: q.held.filter (·.1 != index) }
  | .again index, here => here.filterMap fun p => p.past text ((p.held.lookup index).getD [])
  | .look behind negated body, here =>
    here.filterMap fun p =>
      let found :=
        if behind then
          ((List.range (p.position + 1)).flatMap fun back =>
            reach text body [{ p with position := p.position - back }]).find?
              (·.position == p.position)
        else (reach text body [p]).head?
      match found with
      | some q => if negated then none else some { p with held := q.held }
      | none => if negated then some p else none
  | .atStart, here => here.filter (·.position == 0)
  | .atEnd, here => here.filter (·.position == text.size)
  | .atWordEdge negated, here =>
    here.filter fun p =>
      let before := decide (0 < p.position) && isWordAt text (p.position - 1)
      (before != isWordAt text p.position) != negated

/-- Can the expression be followed from some place of the text? -/
def matchesIn (r : Regex) (text : String) : Bool :=
  let units := (units text.toList).toArray
  !(reach units r ((List.range (units.size + 1)).map fun i => ⟨i, []⟩)).isEmpty

/-- The expression for texts whose letter case is folded. -/
def folded : Regex → Regex
  | .one set => .one set.folded
  | .both a b => .both (folded a) (folded b)
  | .either a b => .either (folded a) (folded b)
  | .rounds least most eager r => .rounds least most eager (folded r)
  | .group index r => .group index (folded r)
  | .look behind negated r => .look behind negated (folded r)
  | r => r

/-- Can the expression be followed from some place of the text, whatever the letter case? -/
def matchesFolded (r : Regex) (text : String) : Bool :=
  let units := ((units text.toList).map fold).toArray
  !(reach units r.folded ((List.range (units.size + 1)).map fun i => ⟨i, []⟩)).isEmpty

end Regex

end SshDial

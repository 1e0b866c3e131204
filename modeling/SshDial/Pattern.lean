import SshDial.Regex.Read
import SshDial.Text.Wildcard
import SshDial.Text.CaseFold
import SshDial.Text.Units
import SshDial.Text.Blank

/-! # Patterns — wildcards for a host, and lists of them

    In a pattern `*` stands for any run, `?` for one unit, and every other unit for itself up
    to letter case; in a list `!` excludes.

    `matchesPattern` decides a pattern from a table, and `matchesByExpression` by the regular
    expression that the pattern is rewritten into.  `matchesPattern_iff` reads a single
    pattern as a cutting of the candidate, and `matchesList_iff` a list as "some plain entry
    matches and no excluded one does". -/

namespace SshDial

open SshDial.Text

/-- What one unit of a host pattern may stand for. -/
inductive Pattern.Unit where
  | any
  | like (unit : Nat)
  deriving DecidableEq, Repr

namespace Pattern

/-- Letter case does not matter. -/
def Unit.ok : Pattern.Unit → Nat → Bool
  | .any, _ => true
  | .like u, v => fold u == fold v

/-- The piece that one unit of a pattern text writes. -/
def piece (u : Nat) : Wildcard Pattern.Unit :=
  if u = '*'.toNat then .run else if u = '?'.toNat then .one .any else .one (.like u)

/-- The pieces of a pattern text. -/
def pieces (pattern : String) : List (Wildcard Pattern.Unit) := (units pattern.toList).map piece

/-- Does the pattern match the whole candidate? -/
def matchesPattern (pattern candidate : String) : Bool :=
  Wildcard.accepts Unit.ok (pieces pattern) (units candidate.toList)

/-- The units that have a meaning in expressions and none in patterns. -/
def specials : List Nat :=
  ['.', '+', '^', '$', '{', '}', '(', ')', '|', '[', ']', '\\'].map Char.toNat

/-- The text with a backslash before each of these units. -/
def escaped (s : List Nat) : List Nat :=
  s.flatMap fun u => if u ∈ specials then ['\\'.toNat, u] else [u]

/-- The text with other units in place of each occurrence of a character. -/
def replaced (c : Char) (others : List Nat) (s : List Nat) : List Nat :=
  s.flatMap fun u => if u = c.toNat then others else [u]

/-- The text of the expression for a pattern. -/
def expression (pattern : String) : List Nat :=
  '^'.toNat ::
    replaced '?' ['.'.toNat]
      (replaced '*' ['.'.toNat, '*'.toNat] (escaped (units pattern.toList))) ++
    ['$'.toNat]

/-- Does the expression for the pattern, in which the dot stands for line breaks also, match
    the candidate, whatever the letter case? -/
def matchesByExpression (pattern candidate : String) : Option Bool :=
  if pattern = "*" then some true
  else (Regex.ofUnitsWith? .all (expression pattern)).map (·.matchesFolded candidate)

/-- The excluded pattern, if the entry begins with `!`. -/
def excluded? (entry : String) : Option String :=
  match entry.toList with
  | '!' :: rest => some (String.ofList rest)
  | _ => none

/-- Walks the entries with the answer so far: an exclusion that matches ends the walk, and a
    plain entry that matches makes the answer positive. -/
def matchesListFrom (candidate : String) : Bool → List String → Bool
  | matched, [] => matched
  | matched, entry :: rest =>
    match excluded? entry with
    | some pattern =>
      if matchesPattern pattern candidate then false else matchesListFrom candidate matched rest
    | none => matchesListFrom candidate (matched || matchesPattern entry candidate) rest

/-- Does some plain entry match the candidate, and no excluded one? -/
def matchesList (entries : List String) (candidate : String) : Bool :=
  matchesListFrom candidate false entries

/-- The patterns of a comma-separated list, trimmed, without the empty ones. -/
def splitList (value : String) : List String :=
  ((splitAt ',' value.toList).map trim).filter (!·.isEmpty) |>.map String.ofList

/-- A single pattern read as a cutting of the candidate. -/
theorem matchesPattern_iff (pattern candidate : String) :
    matchesPattern pattern candidate = true ↔
      Wildcard.Matches Unit.ok (pieces pattern) (units candidate.toList) :=
  Wildcard.accepts_iff_matches _ _ _

theorem matchesListFrom_iff (candidate : String) (matched : Bool) (entries : List String) :
    matchesListFrom candidate matched entries = true ↔
      (matched = true ∨ ∃ e ∈ entries, excluded? e = none ∧ matchesPattern e candidate = true) ∧
        ∀ e ∈ entries, ∀ p, excluded? e = some p → matchesPattern p candidate = false := by
  induction entries generalizing matched with
  | nil => simp [matchesListFrom]
  | cons entry rest ih =>
    rw [matchesListFrom]
    cases he : excluded? entry with
    | none => simp [ih, he, or_assoc]
    | some p =>
      by_cases hp : matchesPattern p candidate = true
      · simp [hp, he]
      · simp [hp, ih, he]

/-- A list matches when some plain entry does and no excluded one. -/
theorem matchesList_iff (entries : List String) (candidate : String) :
    matchesList entries candidate = true ↔
      (∃ e ∈ entries, excluded? e = none ∧ matchesPattern e candidate = true) ∧
        ∀ e ∈ entries, ∀ p, excluded? e = some p → matchesPattern p candidate = false := by
  simp [matchesList, matchesListFrom_iff]

end Pattern

end SshDial

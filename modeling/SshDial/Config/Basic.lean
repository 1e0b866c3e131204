import SshDial.Text.Keyword

/-! # Configurations — stanzas of directives in the order in which they apply

    A configuration that has been parsed has every Include already followed. -/

namespace SshDial

open SshDial.Text

/-- Where a line stands: its number and, if the text came from a file, the file. -/
structure Origin where
  path : Option String
  line : Nat
  deriving DecidableEq, Repr, Inhabited

/-- One line that sets something.  `key` is the keyword in lower case, `name` the keyword as
    written, `args` the words of the line and `value` its text. -/
structure Directive where
  key : String
  name : String
  value : String
  args : List String
  origin : Origin
  deriving DecidableEq, Repr, Inhabited

/-- The criteria that a Match line can name. -/
inductive Criterion where
  | all
  | host
  | originalHost
  | user
  | localUser
  | exec
  | canonical
  | final
  deriving DecidableEq, Repr, Inhabited

namespace Criterion

/-- Every criterion. -/
def every : List Criterion :=
  [.all, .host, .originalHost, .user, .localUser, .exec, .canonical, .final]

/-- The word for a criterion, in lower case. -/
def word : Criterion → String
  | .all => "all"
  | .host => "host"
  | .originalHost => "originalhost"
  | .user => "user"
  | .localUser => "localuser"
  | .exec => "exec"
  | .canonical => "canonical"
  | .final => "final"

/-- The criterion that a lower-case word names. -/
def ofWord? (w : String) : Option Criterion := every.find? (·.word == w)

/-- Is the criterion followed by an argument? -/
def takesArgument : Criterion → Bool
  | .all => false
  | .canonical => false
  | .final => false
  | _ => true

end Criterion

/-- One criterion of a Match line with its patterns; for `exec` the command is the only one. -/
structure Condition where
  criterion : Criterion
  negated : Bool
  patterns : List String
  deriving DecidableEq, Repr, Inhabited

/-- What a stanza applies to. -/
inductive Criteria where
  /-- Every host: the stanza stands before any Host or Match line. -/
  | global
  | host (patterns : List String)
  | matching (conditions : List Condition)
  deriving DecidableEq, Repr, Inhabited

/-- Directives that apply together, and the place of the line that opened them. -/
structure Stanza where
  criteria : Criteria
  origin : Origin
  directives : List Directive
  deriving DecidableEq, Repr, Inhabited

/-- A whole configuration: its stanzas, and the files it was read from in reading order. -/
structure Config where
  stanzas : List Stanza
  files : List String
  deriving DecidableEq, Repr, Inhabited

namespace Config

/-- A configuration that says nothing. -/
def empty : Config := ⟨[], []⟩

/-- Does a Host pattern name one host, without wildcards or negation? -/
def isAlias (pattern : String) : Bool := pattern.toList.all fun c => c != '*' && c != '?' && c != '!'

/-- The Host patterns of a stanza that name one host. -/
def stanzaAliases (s : Stanza) : List String :=
  match s.criteria with
  | .host patterns => patterns.filter isAlias
  | _ => []

/-- The aliases that a configuration names, each once, in order of first occurrence. -/
def aliases (c : Config) : List String := (c.stanzas.flatMap stanzaAliases).eraseDups

end Config

end SshDial

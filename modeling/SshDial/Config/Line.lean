import SshDial.Config.Basic
import SshDial.Words
import SshDial.Pattern
import SshDial.Failure

/-! # Lines — what one line of a configuration says

    A line is a keyword, a separator (white space, or an equals sign with white space
    around it) and the rest.  `Line.parse` reads it on its own: neither the lines around it
    nor any file matters. -/

namespace SshDial

open SshDial.Text

/-- What can be wrong with a line. -/
inductive LineFault where
  | unreadable (line : String)
  | invalidKeyword (name : String)
  | missingValue (name : String)
  | openQuote
  | unsupportedCriterion (word : String)
  | missingArgument (criterion : Criterion)
  | allNotAlone
  | manyArguments (name : String) (count : Nat)
  | invalidPort (value : String)
  deriving DecidableEq, Repr, Inhabited

/-- What is wrong, in words. -/
def LineFault.message : LineFault → String
  | .unreadable line => "Cannot parse \"" ++ line ++ "\""
  | .invalidKeyword name => "Invalid keyword \"" ++ name ++ "\""
  | .missingValue name => "Missing value for " ++ name
  | .openQuote => "Unterminated quoted string"
  | .unsupportedCriterion word => "Unsupported Match criteria \"" ++ word ++ "\""
  | .missingArgument criterion => "Match criteria \"" ++ criterion.word ++ "\" requires an argument"
  | .allNotAlone => "Match \"all\" cannot be combined with other criteria"
  | .manyArguments name count => name ++ " takes a single argument, got " ++ toString count
  | .invalidPort value => "Invalid port \"" ++ value ++ "\""

/-- What a line says. -/
inductive Line where
  /-- A blank line or a comment. -/
  | nothing
  | directive (d : Directive)
  /-- A Host or Match line. -/
  | heading (criteria : Criteria)
  | includes (args : List String)
  deriving DecidableEq, Repr, Inhabited

namespace Line

/-- Is the word a keyword: a letter followed by letters and digits? -/
def isKeyword : List Char → Bool
  | [] => false
  | c :: s => isLetter c && s.all Char.isAlphanum

/-- The keywords that take one argument only. -/
def isSingleValued (key : String) : Bool :=
  ["hostname", "user", "port", "proxyjump", "identityfile", "certificatefile",
    "connecttimeout"].contains key

/-- The port that a text of digits names, if it is one. -/
def port? (value : String) : Option Nat :=
  let digits := value.toList
  if digits.isEmpty || !digits.all isDigit then none
  else
    let n := digits.foldl (fun n c => n * 10 + (c.toNat - '0'.toNat)) 0
    if 1 ≤ n ∧ n ≤ 65535 then some n else none

/-- The text after the separator that follows a keyword: white space, or an equals sign with
    white space around it. -/
def afterSeparator (s : List Char) : List Char :=
  match trimStart s with
  | '=' :: rest => trimStart rest
  | rest => rest

/-- The patterns of a criterion's argument; a command is kept whole. -/
def criterionPatterns (criterion : Criterion) (argument : String) : List String :=
  if criterion = .exec then [argument] else Pattern.splitList argument

/-- The criterion that a word of a Match line names, and whether it is negated. -/
def criterion? (word : String) : Option (Criterion × Bool) :=
  match word.toList with
  | '!' :: rest => (Criterion.ofWord? (lower (String.ofList rest))).map (·, true)
  | _ => (Criterion.ofWord? (lower word)).map (·, false)

/-- The conditions that the words of a Match line write. -/
def conditionList : List String → Except LineFault (List Condition)
  | [] => .ok []
  | word :: rest =>
    match criterion? word with
    | none => .error (.unsupportedCriterion word)
    | some (criterion, negated) =>
      if criterion.takesArgument then
        match rest with
        | [] => .error (.missingArgument criterion)
        | argument :: rest =>
          (conditionList rest).map (⟨criterion, negated, criterionPatterns criterion argument⟩ :: ·)
      else (conditionList rest).map (⟨criterion, negated, []⟩ :: ·)

/-- The conditions of a Match line; `all` stands with none that takes an argument. -/
def conditions (words : List String) : Except LineFault (List Condition) := do
  let cs ← conditionList words
  if cs.any (·.criterion == .all) && cs.any (·.criterion.takesArgument) then throw .allNotAlone
  return cs

/-- What a keyword and its words say; `raw` is the text the words were read from. -/
def ofWords (origin : Origin) (name : String) (words : Words) : Except LineFault Line := do
  let key := lower name
  if words.args.isEmpty then throw (.missingValue name)
  if key = "host" then return .heading (.host words.args)
  if key = "match" then return .heading (.matching (← conditions words.args))
  if key = "include" then return .includes words.args
  if 1 < words.args.length ∧ isSingleValued key then
    throw (.manyArguments name words.args.length)
  let value :=
    match words.args with
    | [arg] => arg
    | _ => String.ofList (trimEnd words.body.toList)
  if key = "port" ∧ (port? value).isNone then throw (.invalidPort value)
  return .directive ⟨key, name, value, words.args, origin⟩

/-- What a trimmed line says. A proxy command is kept as it stands, quotes and comment included. -/
def parseTrimmed (origin : Origin) (line : List Char) : Except LineFault Line := do
  let name := line.takeWhile fun c => !isBlank c && c != '='
  let rest := afterSeparator (line.dropWhile fun c => !isBlank c && c != '=')
  if name.isEmpty || rest.any isLineBreak then throw (.unreadable (String.ofList line))
  let written := String.ofList name
  if !isKeyword name then throw (.invalidKeyword written)
  let raw := trim rest
  if raw.isEmpty then throw (.missingValue written)
  if lower written = "proxycommand" then
    return .directive ⟨"proxycommand", written, String.ofList raw, [String.ofList raw], origin⟩
  match Words.ofText? (String.ofList raw) with
  | none => throw .openQuote
  | some words => ofWords origin written words

/-- What a line says. -/
def parse (origin : Origin) (line : List Char) : Except LineFault Line :=
  match trim line with
  | [] => .ok .nothing
  | '#' :: _ => .ok .nothing
  | trimmed => parseTrimmed origin trimmed

end Line

/-- The words of an argument text on its own; a quote that is never closed is a failure at
    the given place. -/
def Words.arguments (place : Details) (text : String) : Except Failure (List String) :=
  match Words.ofText? text with
  | some words => .ok words.args
  | none => .error (.malformed LineFault.openQuote.message place none)

/-- A faulty line as a failure at its place. -/
def LineFault.failure (fault : LineFault) (origin : Origin) : Failure :=
  .malformed fault.message { path := origin.path, line := some origin.line } none

end SshDial

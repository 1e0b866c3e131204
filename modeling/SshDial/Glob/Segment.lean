import SshDial.Glob.Base
import SshDial.Glob.Translate

/-! # Segments — the names that a glob is made of

    They say in which directories the files of the glob can lie.  Only a directory whose names
    fit the glob name by name is entered; below a name with `**` every directory is. -/

namespace SshDial.Glob

open SshDial.Text

/-- The text up to the end of braces, and the text after it; `depth` is the number of braces
    that are open.  A dot takes the character after it along, unless the braces began with
    an escaped one. -/
def bracesEnd (escaped : Bool) : Nat → List Char → List Char × List Char
  | _, [] => ([], [])
  | depth, '\\' :: d :: s =>
    let (taken, rest) := bracesEnd escaped depth s
    ('\\' :: d :: taken, rest)
  | depth, '{' :: s =>
    let (taken, rest) := bracesEnd escaped (depth + 1) s
    ('{' :: taken, rest)
  | depth, '}' :: s =>
    if depth ≤ 1 then (['}'], s)
    else
      let (taken, rest) := bracesEnd escaped (depth - 1) s
      ('}' :: taken, rest)
  | depth, '.' :: d :: s =>
    if escaped ∨ d = '}' then
      let (taken, rest) := bracesEnd escaped depth (d :: s)
      ('.' :: taken, rest)
    else
      let (taken, rest) := bracesEnd escaped depth s
      ('.' :: d :: taken, rest)
  | depth, c :: s =>
    let (taken, rest) := bracesEnd escaped depth s
    (c :: taken, rest)

/-- The text up to a closing bracket, and the text after it; the character behind `pass` is
    passed over. -/
def bracketEnd (closing pass : Char) : List Char → List Char × List Char
  | [] => ([], [])
  | c :: s =>
    if c = pass then
      match s with
      | [] => ([c], [])
      | d :: r =>
        let (taken, rest) := bracketEnd closing pass r
        (c :: d :: taken, rest)
    else if c = closing then ([c], s)
    else
      let (taken, rest) := bracketEnd closing pass s
      (c :: taken, rest)

/-- The text up to the next slash outside brackets, and the text after that slash if there
    is one.  Each round takes a character, so the length of the text is fuel enough. -/
def cutName : Nat → List Char → List Char × Option (List Char)
  | 0, s => (s, none)
  | fuel + 1, s =>
    let after (front rest : List Char) : List Char × Option (List Char) :=
      let (taken, rest) := cutName fuel rest
      (front ++ taken, rest)
    match s with
    | [] => ([], none)
    | '/' :: r => ([], some r)
    | '\\' :: '{' :: c :: r =>
      -- an escaped brace is read like braces from the character behind it on
      let (taken, rest) := bracesEnd true 1 r
      after ('\\' :: '{' :: c :: taken) rest
    | '\\' :: c :: r => after ['\\', c] r
    | '{' :: r =>
      let (taken, rest) := bracesEnd false 1 r
      after ('{' :: taken) rest
    | '[' :: r =>
      let (taken, rest) := bracketEnd ']' '\\' r
      after ('[' :: taken) rest
    | '(' :: r =>
      let (taken, rest) := bracketEnd ')' '(' r
      after ('(' :: taken) rest
    | c :: '(' :: r =>
      if isGroupSign c then
        let (taken, rest) := bracketEnd ')' '\\' r
        after (c :: '(' :: taken) rest
      else after [c] ('(' :: r)
    | c :: r => after [c] r

/-- The names between the slashes of a glob. -/
def cutNames : Nat → List Char → List (List Char)
  | 0, s => [s]
  | fuel + 1, s =>
    match cutName s.length s with
    | (name, none) => [name]
    | (name, some rest) => name :: cutNames fuel rest

/-- The names that a glob is made of; a `./` in front and a slash at the end count for nothing. -/
def names (glob : List Char) : List (List Char) :=
  let all := cutNames glob.length glob
  let all := if ['.', '/'].isPrefixOf glob then all.drop 1 else all
  if 1 < all.length ∧ all.getLast? = some [] ∧ all ≠ [[], []] then all.dropLast else all

/-- One name of a glob. -/
inductive Segment where
  | plain (name : String)
  /-- A name to be matched; `crosses` if it holds `**`. -/
  | pattern (expression : Option Regex) (crosses : Bool)
  deriving Repr, Inhabited

namespace Segment

/-- A name of a glob as a segment. -/
def ofName (name : List Char) : Segment :=
  if isGlob (String.ofList name) then .pattern (regex? name) (occursIn ['*', '*'] name)
  else .plain (String.ofList name)

/-- Does the name fit the segment? -/
def fits (s : Segment) (name : String) : Bool :=
  match s with
  | .plain n => n == name
  | .pattern expression _ => (expression.map (·.matchesIn name)).getD false

/-- Does the segment stand for any number of names? -/
def crosses : Segment → Bool
  | .plain _ => false
  | .pattern _ crosses => crosses

/-- The segments of a glob. -/
def ofGlob (glob : List Char) : List Segment := (names glob).map ofName

/-- Can files of the glob lie below the directory with these names? -/
def admits (segments : List Segment) (names : List String) : Bool :=
  let front := segments.takeWhile fun s => !s.crosses
  if front.length < segments.length ∧ front.length < names.length then true
  else
    (front.length < segments.length || names.length < segments.length) &&
      names.length ≤ segments.length && (segments.zip names).all fun (s, n) => s.fits n

end Segment

end SshDial.Glob

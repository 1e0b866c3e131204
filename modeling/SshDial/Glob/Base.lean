import SshDial.Path
import SshDial.Text.Keyword

/-! # Globs — what makes a text one, and the directory that its files lie below

    `isGlob` tells a glob from the path of one file.  `baseDirectory` is the longest leading
    part of a glob that names a directory; there a single question mark is an ordinary
    character of a name, unless it follows one of `].+)`. -/

namespace SshDial.Glob

open SshDial.Text

/-- Is there a closing bracket after an opening one, with no other opening one between them? -/
def hasBracketPair : Bool → List Char → Bool
  | _, [] => false
  | opened, c :: s =>
    if c = '[' then hasBracketPair true s
    else if c = ']' ∧ opened then true
    else hasBracketPair opened s

/-- The text from the first opening brace up to the next closing one, if there are both. -/
def firstBraces (s : List Char) : Option (List Char) :=
  match s.dropWhile (· != '{') with
  | [] => none
  | _ :: rest => if rest.contains '}' then some (rest.takeWhile (· != '}')) else none

/-- The characters that say how often a group in parentheses may stand. -/
def isGroupSign (c : Char) : Bool := "!*+?@".toList.contains c

/-- Behind an opening parenthesis: do bars and a closing parenthesis follow before another
    opening one? Behind the last bar before it the text up to the closing parenthesis may
    hold anything else. -/
def hasBarred (s : List Char) : Bool :=
  let front := s.takeWhile (· != '(')
  -- a bar before the next opening parenthesis, and a closing one before the bar after it
  let rec afterBar : List Char → List Char → Bool
    | [], _ => false
    | '|' :: s, _ :: whole => (whole.takeWhile (· != '|')).contains ')' || afterBar s whole
    | _ :: s, _ :: whole => afterBar s whole
    | _ :: _, [] => false
  afterBar front s

/-- Is there a group in parentheses: behind a sign, or anywhere else with alternatives between bars? -/
def hasGroup : Option Char → List Char → Bool
  | _, [] => false
  | before, c :: s =>
    (c == '(' &&
      (if (before.map isGroupSign).getD false then (s.takeWhile (· != '(')).contains ')'
      else hasBarred s)) || hasGroup (some c) s

/-- Is the text a glob, and not the path of one file? -/
def isGlob (text : String) : Bool :=
  let s := text.toList
  s.contains '*' || s.contains '?' || s.head? == some '!' || s.contains '\\' ||
    hasBracketPair false s || hasGroup none s ||
    match firstBraces s with
    | some inside => inside.contains ',' || occursIn ['.', '.'] inside
    | none => false

/-- Does the text come to the character before any backslash? -/
def closesPlainly (c : Char) (s : List Char) : Bool :=
  s.contains c && !(s.takeWhile (· != c)).contains '\\'

/-- Does a mark stand at the front of the text that no name of a directory has? -/
def isMarked (s : List Char) : Bool :=
  match s with
  | '*' :: _ => true
  | '[' :: r => r.head? != some ']' && closesPlainly ']' r
  | '{' :: r => r.head? != some '}' && closesPlainly '}' r
  | '(' :: r =>
    (match r with
      | '?' :: c :: r => (c == ':' || c == '!' || c == '=') && r.head? != some ')' &&
          closesPlainly ')' r
      | _ => false) ||
    (r.head? != some '|' &&
      match r.dropWhile (· != '|') with
      | _ :: r => r.head? != some ')' && closesPlainly ')' r
      | [] => false)
  | c :: '?' :: _ => c == ']' || c == '.' || c == '+' || c == ')'
  | _ => false

/-- Is there such a mark anywhere? Brackets that open behind a backslash are passed over
    with what they hold.  Each round takes a character, so the length of the text is fuel
    enough. -/
def hasMark : Nat → List Char → Bool
  | 0, _ => false
  | fuel + 1, s =>
    isMarked s ||
      match s with
      | [] => false
      | '\\' :: mark :: r =>
        let closing :=
          if mark = '{' then some '}' else if mark = '(' then some ')'
          else if mark = '[' then some ']' else none
        let r :=
          match closing with
          | some c => if r.contains c then (r.dropWhile (· != c)).drop 1 else r
          | none => r
        r.head? == some '!' || hasMark fuel r
      | _ :: r => hasMark fuel r

/-- Is there a group behind a sign, the sign without a backslash before it? -/
def hasSignedGroup : List Char → Bool
  | '\\' :: _ :: s => hasSignedGroup s
  | c :: s => (isGroupSign c && s.head? == some '(' && (s.drop 1).contains ')') || hasSignedGroup s
  | [] => false

/-- Does a bracket open without a backslash before it: a square bracket, a brace, or a
    parenthesis that something follows but no closing one? -/
def hasOpening : Option Char → List Char → Bool
  | _, [] => false
  | before, c :: s =>
    (before != some '\\' &&
      (c == '[' || c == '{' || (c == '(' && s != [] && !s.contains ')'))) || hasOpening (some c) s

/-- Can the text not be the name of a directory to search? -/
def isPattern (s : List Char) : Bool :=
  s.head? == some '!' || hasSignedGroup s || hasMark s.length s || hasOpening none s

/-- The directory of the text, and the directory of that, up to one that can be searched.  A
    directory is shorter than what lies in it, so the length of the text is fuel enough. -/
def climb : Nat → List Char → List Char
  | 0, s => s
  | fuel + 1, s =>
    let directory := (Path.dirname (String.ofList s)).toList
    if isPattern directory then climb fuel directory else directory

/-- The text without the backslashes before signs of a glob. -/
def unescaped : List Char → List Char
  | '\\' :: c :: s =>
    if "!*?|[](){}".toList.contains c then c :: unescaped s else '\\' :: unescaped (c :: s)
  | c :: s => c :: unescaped s
  | [] => []
termination_by s => s.length

/-- The directory that the files of a glob are looked for in. -/
def baseDirectory (glob : List Char) : String :=
  let closed :=
    (glob.getLast? == some '}' || glob.getLast? == some ']') &&
      glob.dropLast.any fun c => c == '{' || c == '['
  -- a last name that is closed by a bracket may hold slashes
  let whole := glob ++ (if closed then ['/', 'a'] else ['a'])
  String.ofList (unescaped (climb whole.length whole))

end SshDial.Glob

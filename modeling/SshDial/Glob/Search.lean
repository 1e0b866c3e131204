import SshDial.FileTree
import SshDial.Glob.Braces
import SshDial.Glob.Segment

/-! # Searches — the files of a tree that a glob stands for

    The texts that a glob's braces stand for are gathered into searches: one for each
    directory to look below, or a single one if some text can match right in the starting
    directory.  A search meets every file by the path that leads to it from there, so a file
    that is met by two paths is found twice. -/

namespace SshDial

open SshDial.Text

namespace Glob

namespace Fault

/-- The name of the kind of error that a fault is shown as. -/
def kind : Fault → String
  | .longBraces _ => "SyntaxError"
  | .long _ => "SyntaxError"
  | .wideRange => "RangeError"
  | .tangled => "TypeError"
  | .reservedName => "TypeError"
  | .unlistable _ => "Error"
  | .unreachable _ => "Error"

/-- The account of a fault. -/
def message : Fault → String
  | .longBraces n =>
    "Input length (" ++ toString n ++ "), exceeds max characters (" ++ toString Braces.longest ++ ")"
  | .long n =>
    "Input length: " ++ toString n ++ ", exceeds maximum allowed length: " ++ toString longest
  | .wideRange =>
    "expanded array length exceeds range limit. Use options.rangeLimit to increase or disable the limit."
  | .tangled => "Cannot read properties of undefined (reading 'push')"
  | .reservedName => "collection[base].push is not a function"
  | .unlistable directory => FileError.message "scandir" directory .notDirectory
  | .unreachable path => FileError.message "lstat" path .notDirectory

end Fault

/-- A text that a glob stands for, with the directory below which its files lie. -/
structure Pattern where
  text : List Char
  base : String
  deriving DecidableEq, Repr, Inhabited

namespace Pattern

/-- A text with its directory. -/
def ofText (text : List Char) : Pattern := ⟨text, baseDirectory text⟩

/-- Is the pattern the path of one file? -/
def isPlain (p : Pattern) : Bool := !isGlob (String.ofList p.text)

/-- Does the pattern begin by leaving the starting directory? -/
def leaves (p : Pattern) : Bool :=
  ['.', '.'].isPrefixOf p.text || ['.', '/', '.', '.'].isPrefixOf p.text

end Pattern

/-- Patterns that are looked for together below one directory. -/
structure Search where
  base : String
  patterns : List Pattern
  deriving Repr, Inhabited

/-- Names that are taken in every collection, so that nothing can be gathered under them. -/
def reservedNames : List String :=
  ["constructor", "hasOwnProperty", "isPrototypeOf", "propertyIsEnumerable", "toLocaleString",
    "toString", "valueOf", "__proto__", "__defineGetter__", "__defineSetter__", "__lookupGetter__",
    "__lookupSetter__"]

/-- One search for each directory of the patterns, in the order in which they come up. -/
def gather (patterns : List Pattern) : List Search :=
  (patterns.map (·.base)).eraseDups.map fun base => ⟨base, patterns.filter (·.base == base)⟩

/-- The searches for patterns: those that leave the starting directory by their directories,
    and the others likewise unless one of them can match right there. -/
def searches (patterns : List Pattern) : Except Fault (List Search) :=
  if patterns.any fun p => reservedNames.contains p.base then .error .reservedName
  else
    let (outside, inside) := patterns.partition (·.leaves)
    .ok (gather outside ++
      if inside.any (·.base == ".") then [⟨".", inside⟩] else gather inside)

/-- Several slashes in a row as one, but for those at the very front. -/
def singleSlashes : List Char → List Char
  | [] => []
  | c :: s =>
    let rec merged : List Char → List Char
      | '/' :: '/' :: s => merged ('/' :: s)
      | c :: s => c :: merged s
      | [] => []
    c :: merged s

/-- The length in UTF-16 units, by which the texts of a glob are ordered. -/
def isShorter (s t : List Char) : Bool := (units s).length ≤ (units t).length

/-- The texts that a glob stands for, the short ones first. -/
def texts (glob : List Char) : Except Fault (List (List Char)) :=
  (Braces.writeOut glob).map fun all =>
    ((all.mergeSort isShorter).filter (· ≠ [])).map singleSlashes

/-- A text with `!` in front takes files away, unless a negated group begins there. -/
def isTakenAway (text : List Char) : Bool := text.head? == some '!' && text[1]? != some '('

/-- What a glob asks for: patterns to be met, and patterns that take files away. -/
structure Query where
  wanted : List Pattern
  unwanted : List (List Char)
  deriving Repr, Inhabited

/-- What a glob asks for. -/
def Query.ofGlob (glob : List Char) : Except Fault Query := do
  let all ← texts glob
  match all.find? fun t => longest < (units t).length with
  | some t => .error (.long (units t).length)
  | none =>
    .ok ⟨(all.filter (!isTakenAway ·)).map Pattern.ofText, (all.filter isTakenAway).map (·.drop 1)⟩

/-- The path without a leading `./`. -/
def withoutLeadingDot (path : String) : String :=
  match path.toList with
  | '.' :: '/' :: s => String.ofList s
  | '.' :: '\\' :: s => String.ofList s
  | _ => path

/-- The path of a name in a directory. -/
def inDirectory (directory name : String) : String :=
  if directory = "" then name
  else if directory.toList.getLast? = some '/' then directory ++ name
  else directory ++ "/" ++ name

/-- Does one of the expressions match the path? -/
def matchesSome (expressions : List Regex) (path : String) : Bool :=
  expressions.any (·.matchesIn path)

/-- Does the text also keep whole directories from being entered? -/
def keepsOut (text : List Char) : Bool :=
  ['*', '*', '/'].isPrefixOf text.reverse ||
    !isGlob (String.ofList ((text.reverse.dropWhile (· == '/')).takeWhile (· != '/')).reverse)

/-- A query made ready for matching: the expressions that take files away, by relative and
    by whole path, and those that keep directories from being entered. -/
structure Exclusion where
  relative : List Regex
  whole : List Regex
  directories : List Regex

/-- The texts that take files away, made ready. -/
def Exclusion.ofTexts (unwanted : List (List Char)) : Exclusion where
  relative := (unwanted.filter (·.head? != some '/')).filterMap regex?
  whole := (unwanted.filter (·.head? == some '/')).filterMap regex?
  directories := (unwanted.filter keepsOut).filterMap regex?

/-- The whole path that a path means in a directory. -/
def wholePath (directory path : String) : String :=
  Path.resolve FileTree.workingDirectory
    (if Path.isAbsolute path then path else "/".intercalate [directory, path])

/-- The path with slashes in place of backslashes, as found files are named. -/
def withSlashes (path : String) : String :=
  String.ofList (path.toList.map fun c => if c = '\\' then '/' else c)

/-- Is a file met by the path, and not taken away? -/
def isMet (directory : String) (wanted : List Regex) (out : Exclusion) (path : String) : Bool :=
  let shown := withoutLeadingDot path
  matchesSome wanted shown && !matchesSome out.relative shown &&
    !matchesSome out.whole (wholePath directory shown)

/-- The paths of single files that lead to a file. -/
def plainFiles (tree : FileTree) (directory : String) (out : Exclusion) (s : Search) :
    Except Fault (List String) :=
  let wanted := s.patterns.filterMap fun p => regex? p.text
  (s.patterns.filterMapM fun p =>
    let path := String.ofList p.text
    match tree.locate (wholePath directory path) with
    | .ok (_, .file _) => .ok (if isMet directory wanted out path then some path else none)
    | .error .notDirectory => .error (.unreachable (wholePath directory path))
    | _ => .ok none)

/-- The paths below the directory of a search that lead to a file that is met. -/
def foundFiles (tree : FileTree) (directory : String) (out : Exclusion) (s : Search) :
    Except Fault (List String) :=
  let root := wholePath directory s.base
  match tree.locate root with
  | .error .missing => .ok []
  | .error _ => .error (.unlistable root)
  | .ok (_, .file _) => .error (.unlistable root)
  | .ok (names, .directory) =>
    let wanted := s.patterns.filterMap fun p => regex? p.text
    let ways := s.patterns.map fun p => Segment.ofGlob p.text
    let base := if s.base = "." then "" else s.base
    let isEntered (names : List String) : Bool :=
      let path := withoutLeadingDot (names.foldl inDirectory base)
      let parts := (splitAt '/' path.toList).map String.ofList
      (ways.any fun w => Segment.admits w parts) && !matchesSome out.directories path
    .ok (((tree.filesBelow names).filter fun below =>
      (List.range (below.length - 1)).all fun n => isEntered (below.take (n + 1))).filterMap
        fun below =>
          let path := below.foldl inDirectory base
          if isMet directory wanted out path then some path else none)

/-- The paths that were met, each once. -/
def distinct (paths : List String) : List String :=
  (paths.foldl (fun kept path =>
    if kept.any fun k => withoutLeadingDot k == withoutLeadingDot path then kept else path :: kept)
    []).reverse

/-- The files that a glob stands for, seen from a directory, sorted by UTF-16 unit. -/
def expand (tree : FileTree) (directory glob : String) : Except Fault (List String) := do
  let query ← Query.ofGlob glob.toList
  let out := Exclusion.ofTexts query.unwanted
  let (plain, patterns) := query.wanted.partition (·.isPlain)
  let plainSearches ← searches plain
  let patternSearches ← searches patterns
  let plainFound ← plainSearches.mapM (plainFiles tree directory out)
  let patternFound ← patternSearches.mapM (foundFiles tree directory out)
  let paths := distinct (plainFound.flatten ++ patternFound.flatten)
  return (paths.map fun path => withSlashes (wholePath directory path)).mergeSort leUnits

end Glob

end SshDial

import SshDial.Path
import SshDial.Text.Utf8

/-! # File trees — the text of a file, and whether a path leads anywhere

    These are the two ways of touching a tree of files that reading a configuration needs.

    Paths are followed component by component, so `..` needs its directory to exist and
    nothing lies below a file.  Relative paths start at `FileTree.workingDirectory`. -/

namespace SshDial

open SshDial.Text

/-- Why a path could not be used. -/
inductive FileError where
  | missing
  | notDirectory
  | isDirectory
  deriving DecidableEq, Repr, Inhabited

namespace FileError

/-- The system's name for the error. -/
def code : FileError → String
  | .missing => "ENOENT"
  | .notDirectory => "ENOTDIR"
  | .isDirectory => "EISDIR"

/-- The system's account of the error; `action` is the call that was refused. -/
def message (action path : String) : FileError → String
  | .missing => "ENOENT: no such file or directory, " ++ action ++ " '" ++ path ++ "'"
  | .notDirectory => "ENOTDIR: not a directory, " ++ action ++ " '" ++ path ++ "'"
  | .isDirectory => "EISDIR: illegal operation on a directory, read"

end FileError

/-- What a path leads to. -/
inductive FileTree.Node where
  | directory
  | file (text : String)
  deriving DecidableEq, Repr

/-- The nodes below the root, each under the names on the way to it. -/
structure FileTree where
  nodes : List (List String × FileTree.Node)
  deriving Inhabited

namespace FileTree

/-- The directory that relative paths start at. -/
def workingDirectory : String := "/cwd"

/-- The names on the way to an absolute path, with `.` and `..` worked out on the text alone. -/
def namesOf (path : String) : List String :=
  (Path.tidyParts true (splitAt '/' (Path.resolve workingDirectory path).toList)).map String.ofList

/-- The node under these names; the root is always a directory. -/
def get? (t : FileTree) (names : List String) : Option Node :=
  if names = [] then some .directory else (t.nodes.find? (·.1 == names)).map (·.2)

/-- Puts one node in place of what its names led to. -/
def set (t : FileTree) (names : List String) (node : Node) : FileTree :=
  if names = [] then t else ⟨t.nodes.filter (·.1 != names) ++ [(names, node)]⟩

/-- Makes the directories on the way to these names, the last name included. -/
def makeDirectories (t : FileTree) (names : List String) : FileTree :=
  (List.range (names.length + 1)).foldl (fun t n =>
    if (t.get? (names.take n)).isSome then t else t.set (names.take n) .directory) t

/-- The tree that holds nothing but the working directory. -/
def empty : FileTree := makeDirectories ⟨[]⟩ (namesOf workingDirectory)

/-- The tree with a directory at the path. -/
def addDirectory (t : FileTree) (path : String) : FileTree := t.makeDirectories (namesOf path)

/-- The tree with a file at the path, in new directories where there were none. -/
def write (t : FileTree) (path text : String) : FileTree :=
  (t.makeDirectories (namesOf path).dropLast).set (namesOf path) (.file text)

/-- The tree without the path and what lies below it. -/
def remove (t : FileTree) (path : String) : FileTree :=
  ⟨t.nodes.filter fun node => !(namesOf path).isPrefixOf node.1⟩

/-- Follows components from a node on. -/
def follow (t : FileTree) : List String → Node → List (List Char) → Except FileError (List String × Node)
  | names, node, [] => .ok (names, node)
  | _, .file _, _ :: _ => .error .notDirectory
  | names, .directory, part :: rest =>
    if part = [] ∨ part = ['.'] then t.follow names .directory rest
    else if part = ['.', '.'] then t.follow names.dropLast .directory rest
    else
      match t.get? (names ++ [String.ofList part]) with
      | some node => t.follow (names ++ [String.ofList part]) node rest
      | none => .error .missing

/-- The node that a path leads to, and its names. -/
def locate (t : FileTree) (path : String) : Except FileError (List String × Node) :=
  if path = "" then .error .missing
  else
    let whole := if Path.isAbsolute path then path else "/".intercalate [workingDirectory, path]
    t.follow [] .directory (splitAt '/' whole.toList)

/-- The text of the file at a path. -/
def read (t : FileTree) (path : String) : Except FileError String :=
  match t.locate path with
  | .ok (_, .file text) => .ok text
  | .ok (_, .directory) => .error .isDirectory
  | .error e => .error e

/-- Does the path lead anywhere? -/
def contains (t : FileTree) (path : String) : Bool :=
  match t.locate path with
  | .ok _ => true
  | .error _ => false

/-- The files below a directory, each by the names that lead on from it. -/
def filesBelow (t : FileTree) (names : List String) : List (List String) :=
  t.nodes.filterMap fun (path, node) =>
    match node with
    | .file _ =>
      if names.isPrefixOf path && names.length < path.length then some (path.drop names.length)
      else none
    | .directory => none

end FileTree

end SshDial

import SshDial.Config.Line
import SshDial.Environment
import SshDial.Glob.Search
import SshDial.Log.Entry

/-! # The reader — a configuration out of a file tree

    The lines of a text are taken in order; an Include line is replaced by the lines of the
    files it names, and the stanza it stands in goes on after it.  The nesting depth that is
    left is the measure of the recursion, so files that include each other end in
    `ReadFault.tooDeep`. -/

namespace SshDial

open SshDial.Text

/-- Why a configuration could not be read. -/
inductive ReadFault where
  | line (fault : LineFault) (origin : Origin)
  /-- A file that could not be read; `origin` is the Include line that names it, if one does. -/
  | file (path : String) (error : FileError) (origin : Option Origin)
  | tooDeep (limit : Int) (origin : Origin)
  /-- The user's configuration is there but cannot be reached. -/
  | unreachable (path : String) (error : FileError)
  /-- An Include argument without any text. -/
  | emptyPattern
  /-- A glob that could not be followed. -/
  | glob (fault : Glob.Fault)
  deriving DecidableEq, Repr, Inhabited

/-- A fault as the caller meets it.  A file named by an Include line is reported at that
    line; the two faults of a glob come from below and are no failures of this library's
    own. -/
def ReadFault.refusal : ReadFault → Refusal
  | .line fault origin => .failure (fault.failure origin)
  | .file path error origin =>
    .failure (.io
      ("Cannot read SSH config " ++ path ++ ": " ++ error.message "open" path)
      { path := some ((origin.bind (·.path)).getD path)
        line := origin.map fun o => (o.line : Int)
        cause := error.thrown "open" path }
      (if error = .missing then some "Check the path in the Include directive" else none))
  | .tooDeep limit origin =>
    .failure (.includeDepth (Failure.numeral limit) { path := origin.path, line := some origin.line })
  | .unreachable path error =>
    .failure (.io ("Cannot access SSH config " ++ path)
      { path := some path, cause := error.thrown "access" path } none)
  | .emptyPattern =>
    .thrown "TypeError" "Patterns must be a string (non empty) or an array of strings"
  | .glob fault => .thrown fault.kind fault.message

/-- A Host or Match line that is in force: what it says and where it stands. -/
structure Heading where
  criteria : Criteria
  origin : Origin
  deriving DecidableEq, Repr, Inhabited

/-- The directives read since a heading, or since an Include line below it. -/
structure Segment where
  heading : Heading
  directives : List Directive
  /-- Does the segment begin at its heading, and so make a stanza even if nothing follows? -/
  opened : Bool
  deriving DecidableEq, Repr, Inhabited

namespace Segment

/-- What goes on under a heading after another file has been read, or in another file. -/
def continued (h : Heading) : Segment := ⟨h, [], false⟩

/-- What begins at a heading. -/
def opening (h : Heading) : Segment := ⟨h, [], true⟩

/-- The segment with one more directive. -/
def add (s : Segment) (d : Directive) : Segment := { s with directives := s.directives ++ [d] }

/-- The stanza that a finished segment makes, if it makes one. -/
def stanzas (s : Segment) : List Stanza :=
  if s.opened || !s.directives.isEmpty then [⟨s.heading.criteria, s.heading.origin, s.directives⟩]
  else []

end Segment

/-- What has been read so far. -/
structure Progress where
  stanzas : List Stanza
  files : List String
  /-- The globs that named no file, each with the Include line it stands in. -/
  unmatched : List (String × Origin)
  deriving Inhabited

namespace Progress

/-- The progress with the stanza of a finished segment. -/
def finish (p : Progress) (s : Segment) : Progress := { p with stanzas := p.stanzas ++ s.stanzas }

/-- The progress with one more file. -/
def addFile (p : Progress) (file : String) : Progress := { p with files := p.files ++ [file] }

/-- The progress with one more glob that named no file. -/
def addUnmatched (p : Progress) (glob : String) (origin : Origin) : Progress :=
  { p with unmatched := p.unmatched ++ [(glob, origin)] }

end Progress

/-- Where reading stopped: the fault, and the globs that had named no file until then. -/
structure Halt where
  fault : ReadFault
  unmatched : List (String × Origin)
  deriving Inhabited

/-- The text that is being read: its file, if it came from one, and the directory that its
    relative Include arguments start at. -/
structure Frame where
  path : Option String
  directory : String
  deriving DecidableEq, Repr, Inhabited

namespace Reader

/-- The path or glob that an Include argument means in a directory. -/
def target (env : Environment) (directory argument : String) : String :=
  let expanded := env.expandTilde argument
  if Path.isAbsolute expanded then expanded else Path.join [directory, expanded]

/-- The files that an Include argument names: the one file of a path, the matching files of
    a glob. -/
def filesOf (tree : FileTree) (env : Environment) (directory argument : String) :
    Except ReadFault (List String) :=
  let expanded := env.expandTilde argument
  if expanded = "" then .error .emptyPattern
  else if Glob.isGlob expanded then
    match Glob.expand tree directory expanded with
    | .ok files => .ok files
    | .error fault => .error (.glob fault)
  else .ok [target env directory argument]

/-- Reads the files that an Include argument names, one after the other. -/
def readArgument (tree : FileTree) (env : Environment) (frame : Frame) (origin : Origin)
    (readFile : String → Progress → Except Halt Progress) (p : Progress) (argument : String) :
    Except Halt Progress :=
  match filesOf tree env frame.directory argument with
  | .error fault => .error ⟨fault, p.unmatched⟩
  | .ok [] => .ok (p.addUnmatched (target env frame.directory argument) origin)
  | .ok files => files.foldlM (fun p file => readFile file p) p

/-- Reads lines from a line number on.  `readFile` reads an included file under a heading,
    for an Include line at some place. -/
def readLines (tree : FileTree) (env : Environment) (frame : Frame)
    (readFile : Heading → Origin → String → Progress → Except Halt Progress) :
    Nat → List (List Char) → Segment → Progress → Except Halt Progress
  | _, [], segment, p => .ok (p.finish segment)
  | n, line :: rest, segment, p =>
    let origin : Origin := ⟨frame.path, n⟩
    match Line.parse origin line with
    | .error fault => .error ⟨.line fault origin, p.unmatched⟩
    | .ok .nothing => readLines tree env frame readFile (n + 1) rest segment p
    | .ok (.directive d) => readLines tree env frame readFile (n + 1) rest (segment.add d) p
    | .ok (.heading criteria) =>
      readLines tree env frame readFile (n + 1) rest (.opening ⟨criteria, origin⟩) (p.finish segment)
    | .ok (.includes args) => do
      let p ← args.foldlM
        (readArgument tree env frame origin (readFile segment.heading origin)) (p.finish segment)
      readLines tree env frame readFile (n + 1) rest (.continued segment.heading) p

/-- Reads a text under a heading; `budget` is the nesting depth that is left for included
    files and `limit` the depth that was allowed at the start. -/
def readText (tree : FileTree) (env : Environment) (limit : Int) :
    Nat → Frame → Heading → String → Progress → Except Halt Progress
  | 0, frame, heading, text, p =>
    readLines tree env frame (fun _ origin _ p => .error ⟨.tooDeep limit origin, p.unmatched⟩)
      1 (lines text.toList) (.continued heading) p
  | budget + 1, frame, heading, text, p =>
    readLines tree env frame
      (fun heading origin file p =>
        match tree.read file with
        | .error e => .error ⟨.file file e (some origin), p.unmatched⟩
        | .ok text =>
          readText tree env limit budget ⟨some file, Path.dirname file⟩ heading text (p.addFile file))
      1 (lines text.toList) (.continued heading) p

end Reader

/-- How deeply included files may nest by default. -/
def Config.defaultIncludeDepth : Int := 16

/-- How a text is read: the file it is said to come from, the directory that its relative
    Include arguments start at when it comes from none, and how deeply included files may
    nest. -/
structure ReadOptions where
  path : Option String := none
  directory : Option String := none
  includeDepth : Int := Config.defaultIncludeDepth
  deriving DecidableEq, Repr, Inhabited

namespace Config

/-- The file a text comes from; an empty name is none. -/
def namedFile (options : ReadOptions) : Option String := options.path.filter (· ≠ "")

/-- The directory that relative Include arguments start at. -/
def baseDirectory (env : Environment) (options : ReadOptions) : String :=
  match namedFile options with
  | some path => Path.dirname path
  | none => options.directory.getD (Path.join [env.homeDir, ".ssh"])

/-- Everything read from a text, or the place where reading stopped. -/
def read (tree : FileTree) (env : Environment) (options : ReadOptions) (source : String) :
    Except Halt Progress :=
  Reader.readText tree env options.includeDepth options.includeDepth.toNat
    ⟨options.path, baseDirectory env options⟩ ⟨.global, ⟨options.path, 0⟩⟩ source
    ⟨[], (namedFile options).toList, []⟩

/-- The entry about a glob that named no file. -/
def unmatchedEntry (found : String × Origin) : Log.Entry :=
  .withFields .debug "Include pattern matched no files"
    [("pattern", .text found.1), ("path", .ofText? found.2.path), ("line", .ofInt found.2.line)]

/-- The entry about a text that has been read. -/
def parsedEntry (options : ReadOptions) (c : Config) : Log.Entry :=
  .withFields .debug "SSH config parsed"
    [("path", .ofText? options.path), ("stanzaCount", .ofInt c.stanzas.length),
      ("fileCount", .ofInt c.files.length)]

/-- The configuration that a text writes. -/
def parse (tree : FileTree) (env : Environment) (options : ReadOptions) (source : String) :
    Logged (Except ReadFault Config) :=
  match read tree env options source with
  | .error halt => ⟨.error halt.fault, halt.unmatched.map unmatchedEntry⟩
  | .ok p =>
    let config : Config := ⟨p.stanzas, p.files⟩
    ⟨.ok config, p.unmatched.map unmatchedEntry ++ [parsedEntry options config]⟩

/-- The configuration in a file. -/
def parseFile (tree : FileTree) (env : Environment) (options : ReadOptions) (path : String) :
    Logged (Except ReadFault Config) :=
  match tree.read path with
  | .error e => ⟨.error (.file path e none), []⟩
  | .ok text => parse tree env { options with path := some path } text

/-- The user's configuration; without a file it is empty. -/
def load (tree : FileTree) (env : Environment) (options : ReadOptions) :
    Logged (Except ReadFault Config) :=
  match tree.locate env.configPath with
  | .ok _ => parseFile tree env options env.configPath
  | .error .missing =>
    ⟨.ok empty,
      [.withFields .debug "SSH config file not found" [("path", .text env.configPath)]]⟩
  | .error e => ⟨.error (.unreachable env.configPath e), []⟩

end Config

end SshDial

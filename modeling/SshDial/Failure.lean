import SshDial.Value
import SshDial.FileTree

/-! # Failures — a code, a message, perhaps a hint, and details

    This is how a caller sees what went wrong.  Each module that can fail has its own type of
    causes; what a cause says is written here only where several modules share the wording. -/

namespace SshDial

/-- The kinds of failure. -/
inductive ErrorCode where
  | malformed
  | io
  | includeDepth
  | spawn
  | unknownHost
  | badRequest
  | connection
  deriving DecidableEq, Repr, Inhabited

namespace ErrorCode

/-- All kinds, in the order in which they are listed. -/
def all : List ErrorCode :=
  [.malformed, .io, .includeDepth, .spawn, .unknownHost, .badRequest, .connection]

/-- The code word of a kind. -/
def text : ErrorCode → String
  | .malformed => "ESYNTAX"
  | .io => "EIO"
  | .includeDepth => "EINCLUDEDEPTH"
  | .spawn => "ESPAWN"
  | .unknownHost => "ENOHOST"
  | .badRequest => "EBADREQ"
  | .connection => "ECONN"

/-- The kind that a code word names. -/
def ofText? (word : String) : Option ErrorCode := all.find? (·.text == word)

end ErrorCode

/-- What a failure says beyond its message.  A process that was ended by a signal has no
    exit status, and one that ended by itself no signal, so both are optional twice. -/
structure Details where
  path : Option String := none
  line : Option Int := none
  exitCode : Option (Option Int) := none
  signal : Option (Option String) := none
  cause : Value := .undefined
  deriving Inhabited

/-- A failure as a caller sees it. -/
structure Failure where
  code : ErrorCode
  message : String
  hint : Option String := none
  details : Details := {}
  deriving Inhabited

namespace Failure

/-- A whole number in a message. -/
def numeral (i : Int) : String := (Number.nearest i).text

/-- The place that a failure names in front of its message: path and line, or the line alone. -/
def place (details : Details) : String :=
  match details.path, details.line with
  | none, none => ""
  | none, some line => "line " ++ numeral line ++ ": "
  | some path, line =>
    if path = "" then
      match line with
      | some line => "line " ++ numeral line ++ ": "
      | none => ""
    else path ++ ":" ++ numeral (line.getD 0) ++ ": "

/-- A failure to make sense of a text; its place stands in front of the message. -/
def malformed (message : String) (details : Details) (hint : Option String) : Failure :=
  ⟨.malformed, place details ++ message, hint, details⟩

/-- A failure of the file system or of a pipe. -/
def io (message : String) (details : Details) (hint : Option String) : Failure :=
  ⟨.io, message, hint, details⟩

/-- Files that include each other too deeply, with the limit as it is to be read. -/
def includeDepth (limit : String) (details : Details) : Failure :=
  ⟨.includeDepth, "Include nested deeper than " ++ limit ++ " levels",
    some "Check for a file that includes itself directly or through another file", details⟩

/-- A command that could not be started. -/
def spawn (message : String) (details : Details) (hint : Option String) : Failure :=
  ⟨.spawn, message, hint, details⟩

/-- An alias that no stanza is about. -/
def unknownHost (host : String) : Failure :=
  ⟨.unknownHost, "No Host or Match stanza applies to " ++ host,
    some "Add a Host block for this alias or resolve without requireMatch", {}⟩

/-- A request that is refused as it stands. -/
def badRequest (message : String) (hint : Option String) : Failure :=
  ⟨.badRequest, message, hint, {}⟩

/-- A connection that did not come about. -/
def connection (message : String) (hint : Option String) (details : Details) : Failure :=
  ⟨.connection, message, hint, details⟩

end Failure

/-- How an operation can end without an answer. -/
inductive Refusal where
  | failure (f : Failure)
  /-- An error of the library's own kind whose code, if it has one, is none of the library's. -/
  | foreign (code : Value) (message : String) (hint : Option String) (details : Details)
  /-- An error from below that no failure wraps. -/
  | thrown (kind message : String)
  deriving Inhabited

namespace Refusal

/-- The kind name of the library's own errors when they are met as loose data. -/
def ownKind : String := "SSHConfigError"

/-- An error of the library's own kind with any code: a failure if the code is one of the library's. -/
def labelled (code : Value) (message : String) (hint : Option String) (details : Details) : Refusal :=
  match code with
  | .text word =>
    match ErrorCode.ofText? word with
    | some c => .failure ⟨c, message, hint, details⟩
    | none => .foreign code message hint details
  | _ => .foreign code message hint details

/-- The refusal that was thrown, if a thrown value is an error of the library's own kind. -/
def ofThrown? : Value → Option Refusal
  | .error kind message code =>
    if kind = ownKind then some (labelled (code.getD .undefined) message none {}) else none
  | _ => none

/-- A value that should have been put into a text and cannot. -/
def unshowable : Refusal := .thrown "TypeError" "Cannot convert object to primitive value"

/-- A refusal out of anything thrown: an error of the library's own kind stays as it is,
    anything else becomes the cause of a new one and gives it its message. -/
def wrap (thrown code : Value) (hint : Option String) (details : Details) : Refusal :=
  match ofThrown? thrown with
  | some r => r
  | none =>
    if thrown.isShowable then labelled code thrown.reason hint { details with cause := thrown }
    else unshowable

/-- The code of a failure makes it one again. -/
@[simp] theorem labelled_text (c : ErrorCode) (message : String) (hint : Option String)
    (details : Details) :
    labelled (.text c.text) message hint details = .failure ⟨c, message, hint, details⟩ := by
  cases c <;> rfl

end Refusal

/-- An error of the file system as a thrown value. -/
def FileError.thrown (e : FileError) (action path : String) : Value :=
  .error "Error" (e.message action path) (some (.text e.code))

end SshDial

import SshDial.Failure
import SshDial.Text.Blank
import SshDial.Text.Keyword

/-! # Jump chains — hops, and the command that reaches a host through them

    Hops are separated by commas, each `[ssh://][user@]host[:port]`.  They become part of a
    shell command, so only plain names are accepted. -/

namespace SshDial

open SshDial.Text

/-- One hop of a jump chain. -/
structure Hop where
  user : Option String
  host : String
  port : Option String
  deriving DecidableEq, Repr, Inhabited

/-- What can be wrong with a jump chain. -/
inductive JumpFault where
  | invalidHop (hop : String)
  | noHosts
  deriving DecidableEq, Repr, Inhabited

/-- A faulty jump chain as a failure; it has no place in a text. -/
def JumpFault.failure : JumpFault → Failure
  | .invalidHop hop =>
    .malformed ("Invalid ProxyJump hop \"" ++ hop ++ "\"") {}
      (some "Expected [user@]host[:port] or ssh://[user@]host[:port]")
  | .noHosts => .malformed "ProxyJump has no hosts" {} none

namespace Hop

/-- A word character, then word characters and the listed others. -/
def isName (others : List Char) : List Char → Bool
  | [] => false
  | c :: s => isWordChar c && s.all fun c => isWordChar c || others.contains c

/-- An address inside brackets: hexadecimal digits, colons and dots, at least one of them. -/
def isAddress (s : List Char) : Bool :=
  !s.isEmpty && s.all fun c =>
    isDigit c || ('a' ≤ c && c ≤ 'f') || ('A' ≤ c && c ≤ 'F') || c == ':' || c == '.'

/-- The text after a scheme mark, or the whole text. -/
def afterScheme (s : List Char) : List Char :=
  if "ssh://".toList.isPrefixOf s then s.drop 6 else s

/-- The user in front of an at sign, and the text behind it. -/
def splitUser (s : List Char) : Option String × List Char :=
  match s.dropWhile (· != '@') with
  | [] => (none, s)
  | _ :: rest => (some (String.ofList (s.takeWhile (· != '@'))), rest)

/-- The host, in brackets or plain, and the text behind it. -/
def splitHost (s : List Char) : List Char × List Char :=
  match s with
  | '[' :: _ =>
    match s.dropWhile (· != ']') with
    | [] => (s, [])
    | close :: rest => (s.takeWhile (· != ']') ++ [close], rest)
  | _ => (s.takeWhile (· != ':'), s.dropWhile (· != ':'))

/-- Is the text a plain host name, or an address in brackets? -/
def isHost (s : List Char) : Bool :=
  match s with
  | '[' :: rest => rest.getLast? == some ']' && isAddress rest.dropLast
  | _ => isName ['.', '-'] s

/-- The port behind a colon: nothing, or digits; `none` for anything else. -/
def port? : List Char → Option (Option String)
  | [] => some none
  | ':' :: digits =>
    if digits.isEmpty || !digits.all isDigit then none else some (some (String.ofList digits))
  | _ => none

/-- The hop that a text writes, if it writes one. -/
def ofChars? (s : List Char) : Option Hop :=
  let (user, rest) := splitUser (afterScheme s)
  let (host, behind) := splitHost rest
  if (user.all fun u => isName ['.', '+', '-'] u.toList) && isHost host then
    (port? behind).map fun port => ⟨user, String.ofList host, port⟩
  else none

end Hop

namespace Jump

/-- The hops of a chain as they are written, trimmed, without the empty ones. -/
def hopTexts (jump : String) : List (List Char) :=
  ((splitAt ',' jump.toList).map trim).filter (!·.isEmpty)

/-- The hop that a text writes. -/
def hop (s : List Char) : Except JumpFault Hop :=
  match Hop.ofChars? s with
  | some h => .ok h
  | none => .error (.invalidHop (String.ofList s))

/-- The words of the command that reaches `%h:%p` from the last hop, through the ones before it. -/
def commandWords (before : List (List Char)) (last : Hop) : List String :=
  ["ssh"] ++
    (match last.user with
      | some user => ["-l", user]
      | none => []) ++
    (match last.port with
      | some port => ["-p", port]
      | none => []) ++
    (if before.isEmpty then [] else ["-J", ",".intercalate (before.map String.ofList)]) ++
    ["-W", "%h:%p", last.host]

/-- The words of the command for a chain. Hops are checked in order. -/
def words (jump : String) : Except JumpFault (List String) := do
  let texts := hopTexts jump
  match texts.getLast? with
  | none => throw .noHosts
  | some last =>
    let before := texts.dropLast
    let _ ← before.mapM hop
    let target ← hop last
    return commandWords before target

/-- The command for a chain. -/
def command (jump : String) : Except JumpFault String := (words jump).map (" ".intercalate ·)

end Jump

end SshDial

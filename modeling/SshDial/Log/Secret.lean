import SshDial.Value
import SshDial.Text.Blank

/-! # Secrets — blanked out before anything is logged

    `Secret.hideInText` replaces a password, passphrase or token together with the word that
    follows it, and whole key blocks, by `****`.  `Secret.hideInValue` replaces the fields of
    loose data that are named for a secret, at any depth. -/

namespace SshDial.Secret

open SshDial.Text

/-- What stands in place of a secret. -/
def mask : List Char := "****".toList

/-- The rest of a text after a lower-case ASCII word, which it may begin with in any letter case. -/
def dropWord : List Char → List Char → Option (List Char)
  | [], s => some s
  | _ :: _, [] => none
  | w :: word, c :: s => if c.toLower = w then dropWord word s else none

/-- What may stand between the name of a secret and the secret. -/
def isSeparator (c : Char) : Bool := c == '=' || c == ':' || isBlank c

/-- The rest of a text after a secret's separators and the secret, a run of non-blank
    characters.  When nothing follows the separators, the last of them that is not blank is
    taken for the secret, unless it is the only separator. -/
def dropSecret (s : List Char) : Option (List Char) :=
  let separators := s.takeWhile isSeparator
  match s.dropWhile isSeparator with
  | c :: rest => if separators.isEmpty then none else some ((c :: rest).dropWhile (!isBlank ·))
  | [] =>
    match separators with
    | [] => none
    | _ :: more =>
      let blanks := more.reverse.takeWhile isBlank
      if blanks.length = more.length then none else some blanks.reverse

/-- The rest of a text that begins with a secret's name and the secret. -/
def dropNamed (name : String) (s : List Char) : Option (List Char) :=
  (dropWord name.toList s).bind dropSecret

/-- The dashes around the first and the last line of a key block. -/
def dashes : List Char := "-----".toList

/-- The rest of a text that begins with the first or last line of a key block: dashes, the
    word, a label without a dash, and dashes. -/
def dropFence (word : String) (s : List Char) : Option (List Char) :=
  (dropWord (dashes ++ word.toList) s).bind fun r =>
    if (r.takeWhile (· != '-')).isEmpty then none else dropWord dashes (r.dropWhile (· != '-'))

/-- The rest of a text after the nearest last line of a key block. -/
def dropToEnd : List Char → Option (List Char)
  | [] => none
  | c :: s =>
    match dropFence "end" (c :: s) with
    | some rest => some rest
    | none => dropToEnd s

/-- The rest of a text that begins with a key block. -/
def dropBlock (s : List Char) : Option (List Char) := (dropFence "begin" s).bind dropToEnd

/-- Replaces, from the left, everything that `drop` removes from the front of the text. -/
def hideAll (drop : List Char → Option (List Char)) : List Char → List Char
  | [] => []
  | c :: s =>
    match drop (c :: s) with
    | some rest => if rest.length ≤ s.length then mask ++ hideAll drop rest else c :: hideAll drop s
    | none => c :: hideAll drop s
termination_by s => s.length

/-- A text with its passwords, passphrases, tokens and key blocks masked, in this order. -/
def hideInText (text : String) : String :=
  let hide (drop : List Char → Option (List Char)) (s : List Char) := hideAll drop s
  String.ofList
    (hide dropBlock
      (hide (dropNamed "token") (hide (dropNamed "passphrase") (hide (dropNamed "password") text.toList))))

/-- Is a field of this name a secret? -/
def isSecretName (name : String) : Bool :=
  ["password", "privatekey", "passphrase"].contains (lower name)

mutual

/-- Loose data with the fields named for a secret masked, unless they hold no answer, and
    with messages of errors masked as texts. -/
def hideInValue : Value → Value
  | .error kind message code =>
    .record [("name", .text kind), ("message", .text (hideInText message)),
      ("code", code.getD .undefined)]
  | .list items => .list (hideInItems items)
  | .record fields => .record (hideInFields fields)
  | v => v

/-- The items of a list, each with its secrets masked. -/
def hideInItems : List Value → List Value
  | [] => []
  | item :: items => hideInValue item :: hideInItems items

/-- The fields of a record, each with its secrets masked. A field named `__proto__` is left out. -/
def hideInFields : List (String × Value) → List (String × Value)
  | [] => []
  | (name, value) :: fields =>
    if name = "__proto__" then hideInFields fields
    else
      (name, if isSecretName name then (if value.isTruthy then .text "****" else value)
        else hideInValue value) :: hideInFields fields

end

end SshDial.Secret

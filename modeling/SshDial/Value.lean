import SshDial.Number.Shortest
import SshDial.Text.Keyword

/-! # Loose data — values that nobody has checked yet

    This is what callers attach to log entries, what was thrown at a caller, and the options of
    a request before they are checked. -/

namespace SshDial

/-- A value of loose data. Fields keep their order. -/
inductive Value where
  | undefined
  | null
  | bool (b : Bool)
  | number (n : Number)
  | text (s : String)
  | list (items : List Value)
  | record (fields : List (String × Value))
  /-- An error object: its kind, its message and the code it carries, if any. -/
  | error (kind message : String) (code : Option Value)
  deriving Inhabited

namespace Value

/-- The name of a value's type, as complaints about options write it. -/
def typeName : Value → String
  | .undefined => "undefined"
  | .null => "null"
  | .bool _ => "boolean"
  | .number .undefined => "nan"
  | .number _ => "number"
  | .text _ => "string"
  | .list _ => "array"
  | .record _ => "object"
  | .error .. => "object"

/-- Does the value count as given? Nothing, zero, the empty text and falsehood do not. -/
def isTruthy : Value → Bool
  | .undefined => false
  | .null => false
  | .bool b => b
  | .number n => n.isTruthy
  | .text s => s != ""
  | _ => true

mutual

/-- A value put into a text. -/
def display : Value → String
  | .undefined => "undefined"
  | .null => "null"
  | .bool b => if b then "true" else "false"
  | .number n => n.text
  | .text s => s
  | .list items => ",".intercalate (displayItems items)
  | .record _ => "[object Object]"
  | .error kind message _ =>
    if kind = "" then message else if message = "" then kind else kind ++ ": " ++ message

/-- The items of a list put into a text; nothing is an empty text. -/
def displayItems : List Value → List String
  | [] => []
  | .undefined :: items => "" :: displayItems items
  | .null :: items => "" :: displayItems items
  | item :: items => display item :: displayItems items

end

mutual

/-- Can the value be put into a text? A record with a field named `toString` cannot, because
    the field stands in the place of the way to do it, and neither can a list with an item
    that cannot. -/
def isShowable : Value → Bool
  | .list items => areShowable items
  | .record fields => (fields.lookup "toString").isNone
  | _ => true

/-- Can every item of a list be put into a text? -/
def areShowable : List Value → Bool
  | [] => true
  | item :: items => isShowable item && areShowable items

end

/-- The text of an error code that a value carries. -/
def errorCode? : Value → Option String
  | .error _ _ (some (.text code)) => some code
  | .record fields =>
    match fields.lookup "code" with
    | some (.text code) => some code
    | _ => none
  | _ => none

/-- The message of an error, and for any other value its text. -/
def reason : Value → String
  | .error _ message _ => message
  | v => v.display

/-- Four lower-case hexadecimal digits. -/
def hex4 (n : Nat) : List Char :=
  [n / 4096 % 16, n / 256 % 16, n / 16 % 16, n % 16].map Nat.digitChar

/-- A character inside a quoted text. -/
def quoteChar (c : Char) : List Char :=
  if c = '"' then ['\\', '"']
  else if c = '\\' then ['\\', '\\']
  else if c.toNat = 8 then ['\\', 'b']
  else if c.toNat = 9 then ['\\', 't']
  else if c.toNat = 10 then ['\\', 'n']
  else if c.toNat = 12 then ['\\', 'f']
  else if c.toNat = 13 then ['\\', 'r']
  else if c.toNat < 32 then '\\' :: 'u' :: hex4 c.toNat
  else [c]

/-- A text in double quotes, with control characters written as escapes. -/
def quote (s : String) : String := String.ofList ('"' :: (s.toList.flatMap quoteChar ++ ['"']))

mutual

/-- A value in JSON notation; what has no notation is written as null. -/
def json : Value → String
  | .undefined => "null"
  | .null => "null"
  | .bool b => if b then "true" else "false"
  | .number (.finite q) => (Number.finite q).text
  | .number _ => "null"
  | .text s => quote s
  | .list items => "[" ++ ",".intercalate (jsonItems items) ++ "]"
  | .record fields => "\x7b" ++ ",".intercalate (jsonFields fields) ++ "\x7d"
  | .error .. => "\x7b\x7d"

/-- The items of a list in JSON notation. -/
def jsonItems : List Value → List String
  | [] => []
  | item :: items => json item :: jsonItems items

/-- The fields of a record in JSON notation, without the undefined ones. -/
def jsonFields : List (String × Value) → List String
  | [] => []
  | (_, .undefined) :: fields => jsonFields fields
  | (name, value) :: fields => (quote name ++ ":" ++ json value) :: jsonFields fields

end

/-- An optional text as a value. -/
def ofText? : Option String → Value
  | some s => .text s
  | none => .undefined

/-- A whole number as a value, as far as the number format can hold it. -/
def ofInt (i : Int) : Value := .number (Number.nearest i)

end Value

end SshDial

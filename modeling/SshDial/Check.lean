import SshDial.Value

/-! # Checks — the options of a request, one field at a time

    The first complaint in the order of the fields is the one that is reported. -/

namespace SshDial

/-- What can be wrong with a field. -/
inductive FieldFault where
  | required
  | wrongType (expected received : String)
  | tooShort
  | below (least : Int)
  | above (greatest : Int)
  deriving DecidableEq, Repr, Inhabited

/-- What is wrong, in words. -/
def FieldFault.message : FieldFault → String
  | .required => "Required"
  | .wrongType expected received => "Expected " ++ expected ++ ", received " ++ received
  | .tooShort => "String must contain at least 1 character(s)"
  | .below least => "Number must be greater than or equal to " ++ toString least
  | .above greatest => "Number must be less than or equal to " ++ toString greatest

/-- A field and what is wrong with it; the field without a name is the request as a whole. -/
structure Complaint where
  field : String
  fault : FieldFault
  deriving DecidableEq, Repr, Inhabited

/-- The complaint in words. -/
def Complaint.message (c : Complaint) : String := c.field ++ ": " ++ c.fault.message

namespace Check

/-- A value of another type than the one expected. -/
def mismatch (expected : String) : Value → FieldFault
  | .undefined => .required
  | v => .wrongType expected v.typeName

/-- A text. -/
def text : Value → Except FieldFault String
  | .text s => .ok s
  | v => .error (mismatch "string" v)

/-- A text of at least one character. -/
def someText (v : Value) : Except FieldFault String := do
  let s ← text v
  if s = "" then throw .tooShort
  return s

/-- A truth value. -/
def bool : Value → Except FieldFault Bool
  | .bool b => .ok b
  | v => .error (mismatch "boolean" v)

/-- A number. -/
def number : Value → Except FieldFault Number
  | .number .undefined => .error (mismatch "number" (.number .undefined))
  | .number n => .ok n
  | v => .error (mismatch "number" v)

/-- A number that is not below a bound. -/
def numberFrom (least : Int) (v : Value) : Except FieldFault Number := do
  let n ← number v
  if n.isBelow least then throw (.below least)
  return n

/-- A port: a whole number from 1 to 65535. -/
def port (v : Value) : Except FieldFault Number := do
  let n ← number v
  if !n.isWhole then throw (.wrongType "integer" "float")
  if n.isBelow 1 then throw (.below 1)
  if n.isAbove 65535 then throw (.above 65535)
  return n

/-- A check on a value that need not be given. -/
def optional {α : Type} (check : Value → Except FieldFault α) : Value → Except FieldFault (Option α)
  | .undefined => .ok none
  | v => (check v).map some

/-- The fields of a record, as a function from their names; a field that is not there is undefined. -/
def record : Value → Except FieldFault (String → Value)
  | .record fields => .ok fun name => (fields.lookup name).getD .undefined
  | .error .. => .ok fun _ => .undefined
  | v => .error (mismatch "object" v)

/-- A check on the field of that name. -/
def field {α : Type} (name : String) (check : Value → Except FieldFault α) (v : Value) :
    Except Complaint α :=
  (check v).mapError (⟨name, ·⟩)

end Check

end SshDial

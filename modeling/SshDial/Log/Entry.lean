import SshDial.Log.Secret

/-! # Log entries — and the lines that a logger writes for them

    An entry is a value: who writes it where, and when, is not known here.  `Entry.line?` gives
    the line that a logger with some threshold writes for an entry, if any. -/

namespace SshDial.Log

open SshDial.Text

/-- How urgent an entry is, the most urgent first. -/
inductive Level where
  | error
  | warn
  | info
  | debug
  deriving DecidableEq, Repr, Inhabited

namespace Level

/-- A level by number, the most urgent one being the least. -/
def rank : Level → Nat
  | .error => 0
  | .warn => 1
  | .info => 2
  | .debug => 3

/-- A level's name in a log line. -/
def label : Level → String
  | .error => "ERROR"
  | .warn => "WARN"
  | .info => "INFO"
  | .debug => "DEBUG"

end Level

/-- What a logger writes. -/
inductive Threshold where
  /-- The entries that are at least as urgent as this level. -/
  | upTo (level : Level)
  /-- Everything: the setting stands for something that no level is above. It is shown as an empty
  record, or not at all. -/
  | none (shown : Bool)
  deriving DecidableEq, Repr, Inhabited

namespace Threshold

/-- The threshold that a setting names in any letter case.  A name that is no level's means
    `info`, but for two that every table of names holds besides its own: what they stand for
    is no level. -/
def ofSetting (setting : Option String) : Threshold :=
  match setting.map lower with
  | some "error" => .upTo .error
  | some "warn" => .upTo .warn
  | some "debug" => .upTo .debug
  | some "constructor" => .none false
  | some "__proto__" => .none true
  | _ => .upTo .info

/-- Does an entry of that level pass the threshold? -/
def admits : Threshold → Level → Bool
  | .upTo most, level => level.rank ≤ most.rank
  | .none _, _ => true

/-- The threshold as loose data: the number of its level, if it has one. -/
def value : Threshold → Value
  | .upTo level => .ofInt level.rank
  | .none true => .record []
  | .none false => .undefined

end Threshold

/-- Something worth logging. -/
structure Entry where
  level : Level
  message : String
  data : Value
  deriving Inhabited

namespace Entry

/-- An entry with named data. -/
def withFields (level : Level) (message : String) (fields : List (String × Value)) : Entry :=
  ⟨level, message, .record fields⟩

/-- An entry without data. -/
def plain (level : Level) (message : String) : Entry := ⟨level, message, .undefined⟩

/-- The entry's line: its level, the message and the data in JSON notation, without secrets. -/
def line (e : Entry) : String :=
  let data :=
    match e.data with
    | .undefined => ""
    | data => " " ++ (Secret.hideInValue data).json
  e.level.label ++ ": " ++ Secret.hideInText e.message ++ data

/-- The line that a logger with the given threshold writes for the entry, if it writes one. -/
def line? (threshold : Threshold) (e : Entry) : Option String :=
  if threshold.admits e.level then some e.line else none

end Entry

/-- The lines that a logger with the given threshold writes for these entries. -/
def lines (threshold : Threshold) (entries : List Entry) : List String :=
  entries.filterMap (Entry.line? threshold)

/-- What a logger is asked to do. -/
inductive Request where
  | write (e : Entry)
  | setThreshold (threshold : Threshold)

/-- One request: the logger's threshold after it and the lines it writes. -/
def step (threshold : Threshold) : Request → Threshold × List String
  | .write e => (threshold, (e.line? threshold).toList)
  | .setThreshold next => (next, [])

/-- The lines that a logger writes for each of some requests in turn. -/
def run (threshold : Threshold) : List Request → List (List String)
  | [] => []
  | r :: rs =>
    let (next, written) := step threshold r
    written :: run next rs

end SshDial.Log

namespace SshDial

/-- An answer and what was worth logging on the way to it. -/
structure Logged (α : Type) where
  value : α
  entries : List Log.Entry
  deriving Inhabited

namespace Logged

variable {α β : Type}

/-- An answer with nothing to log. -/
def pure (a : α) : Logged α := ⟨a, []⟩

/-- Goes on from an answer; what is logged then comes after. -/
def bind (l : Logged α) (next : α → Logged β) : Logged β :=
  ⟨(next l.value).value, l.entries ++ (next l.value).entries⟩

/-- The same entries with another answer. -/
def map (f : α → β) (l : Logged α) : Logged β := ⟨f l.value, l.entries⟩

end Logged

end SshDial

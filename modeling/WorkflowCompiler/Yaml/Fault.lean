import WorkflowCompiler.Text.Quoted

/-! What keeps a text from being read as data. Most faults are those of a document; the others are
met when a scalar is turned into the number, the date or the key that it is meant to be. -/

namespace WorkflowCompiler.Yaml

/-- The part of a date that the calendar or the clock does not have. -/
inductive DatePart
  | year (given : Nat)
  | month
  | day
  | hour
  | minute
  | second
deriving DecidableEq, Repr

def DatePart.message : DatePart → String
  | year given => s!"year {given} is out of range"
  | month => "month must be in 1..12"
  | day => "day is out of range for month"
  | hour => "hour must be in 0..23"
  | minute => "minute must be in 0..59"
  | second => "second must be in 0..59"

inductive Fault
  /-- No document, or one whose data cannot be put together. -/
  | malformed
  | notWhole (base : Nat) (digits : String)
  | notFraction (digits : String)
  | notOnCalendar (part : DatePart)
  /-- A time that its zone moves out of the calendar. -/
  | beyondCalendar
  | notATruthValue (word : String)
  /-- A number of which only the sign, or nothing at all, is written. -/
  | noDigits
  | unhashable
  | repeatedKey
  /-- A mapping that holds itself. -/
  | endless
deriving DecidableEq, Repr

def Fault.message : Fault → String
  | notWhole base digits => s!"invalid literal for int() with base {base}: {Text.quote digits}"
  | notFraction digits => s!"could not convert string to float: {Text.quote digits}"
  | notOnCalendar part => part.message
  | notATruthValue word => Text.quote word
  | _ => ""

end WorkflowCompiler.Yaml

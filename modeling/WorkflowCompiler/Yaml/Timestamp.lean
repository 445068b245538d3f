import WorkflowCompiler.Yaml.Fault
import WorkflowCompiler.Yaml.Resolution

/-! Dates and times. What a scalar spells is checked against the calendar, and a time with a zone is
moved to the zone of Greenwich. What is left is told in one form: the day, and behind it the time
of day if one is given. -/

namespace WorkflowCompiler.Yaml

structure Day where
  year : Nat
  month : Nat
  day : Nat
deriving DecidableEq, Repr

namespace Day

def isLeapYear (year : Nat) : Bool := year % 4 == 0 && (year % 100 != 0 || year % 400 == 0)

def lastOfMonth (year month : Nat) : Nat :=
  if month = 2 then (if isLeapYear year then 29 else 28)
  else if [4, 6, 9, 11].contains month then 30
  else 31

def lastYear : Nat := 9999

/-- What the calendar does not have of a day. -/
def fault? (date : Day) : Option DatePart :=
  if date.year < 1 ∨ lastYear < date.year then some (.year date.year)
  else if date.month < 1 ∨ 12 < date.month then some .month
  else if date.day < 1 ∨ lastOfMonth date.year date.month < date.day then some .day
  else none

def next (date : Day) : Option Day :=
  if date.day < lastOfMonth date.year date.month then some { date with day := date.day + 1 }
  else if date.month < 12 then some ⟨date.year, date.month + 1, 1⟩
  else if date.year < lastYear then some ⟨date.year + 1, 1, 1⟩
  else none

def previous (date : Day) : Option Day :=
  if 1 < date.day then some { date with day := date.day - 1 }
  else if 1 < date.month then some ⟨date.year, date.month - 1, lastOfMonth date.year (date.month - 1)⟩
  else if 1 < date.year then some ⟨date.year - 1, 12, 31⟩
  else none

/-- Takes a step so many times. -/
def repeated (step : Day → Option Day) : Nat → Day → Option Day
  | 0, date => some date
  | count + 1, date => do repeated step count (← step date)

def moved (date : Day) (days : Int) : Option Day :=
  if days < 0 then repeated previous days.natAbs date else repeated next days.natAbs date

end Day

/-- At least so many digits, zeros in front. -/
def padded (width value : Nat) : List Char :=
  let digits := Nat.toDigits 10 value
  List.replicate (width - digits.length) '0' ++ digits

def Day.chars (date : Day) : List Char :=
  padded 4 date.year ++ '-' :: padded 2 date.month ++ '-' :: padded 2 date.day

/-- The number that between `least` and `most` digits spell, and what follows them. -/
def readNumber (least most : Nat) (text : List Char) : Option (Nat × List Char) := do
  let rest ← dropDigits? least most text
  return (Binary64.digitsValue (text.take (text.length - rest.length)), rest)

def readDay (text : List Char) : Option (Day × List Char) := do
  let (year, text) ← readNumber 4 4 text
  let (month, text) ← readNumber 1 2 (← dropChar? '-' text)
  let (day, text) ← readNumber 1 2 (← dropChar? '-' text)
  return (⟨year, month, day⟩, text)

/-- How many seconds a zone is off that of Greenwich, and to which side. -/
structure Zone where
  behind : Bool
  seconds : Nat

/-- The zone behind a time of day; nothing if none is given, or that of Greenwich itself. -/
def readZone (text : List Char) : Option (Option Zone) :=
  match text.dropWhile isSpaceOrTab with
  | [] => if text.isEmpty then some none else none
  | ['Z'] => some none
  | sign :: rest => do
    let (hours, rest) ← readNumber 1 2 rest
    let minutes ← match rest with
      | [] => some 0
      | ':' :: rest => match ← readNumber 2 2 rest with
        | (minutes, []) => some minutes
        | _ => none
      | _ => none
    if sign == '-' || sign == '+' then some (some ⟨sign == '-', 3600 * hours + 60 * minutes⟩) else none

structure Clock where
  hour : Nat
  minute : Nat
  second : Nat
  /-- The digits of the fraction of the second. -/
  fraction : List Char
  zone : Option Zone

def readClock (text : List Char) : Option Clock := do
  let (hour, text) ← readNumber 1 2 text
  let (minute, text) ← readNumber 2 2 (← dropChar? ':' text)
  let (second, text) ← readNumber 2 2 (← dropChar? ':' text)
  let (fraction, text) := match text with
    | '.' :: rest => (rest.takeWhile Char.isDigit, rest.dropWhile Char.isDigit)
    | rest => ([], rest)
  return ⟨hour, minute, second, fraction, ← readZone text⟩

namespace Clock

def fault? (clock : Clock) : Option DatePart :=
  if 23 < clock.hour then some .hour
  else if 59 < clock.minute then some .minute
  else if 59 < clock.second then some .second
  else none

/-- The millionths of a second, to the nearest: the seventh digit decides. -/
def millionths (clock : Clock) : Nat :=
  let kept := clock.fraction.take 6
  let value := Binary64.digitsValue (kept ++ List.replicate (6 - kept.length) '0')
  if (clock.fraction[6]?).any ('4' < ·) then value + 1 else value

def fullSecond : Nat := 1000000

/-- By how many seconds the clock is moved to be that of Greenwich. A fraction that makes a full
second is added where no zone is given, or one behind Greenwich, and taken off elsewhere. -/
def shift (clock : Clock) : Int :=
  let carry := if clock.millionths < fullSecond then 0 else 1
  match clock.zone with
  | none => carry
  | some zone => if zone.behind then zone.seconds + carry else -(zone.seconds + carry)

def chars (seconds millionths : Nat) : List Char :=
  padded 2 (seconds / 3600) ++ ':' :: padded 2 (seconds / 60 % 60) ++ ':' :: padded 2 (seconds % 60)
    ++ if millionths = 0 then [] else '.' :: padded 6 millionths

end Clock

def dayLength : Nat := 86400

/-- A day and a time of day as they are told, the time moved to Greenwich. -/
def momentChars (date : Day) (clock : Clock) : Except Fault (List Char) :=
  match date.fault? <|> clock.fault? with
  | some part => .error (.notOnCalendar part)
  | none =>
    let moment : Int := 3600 * clock.hour + 60 * clock.minute + clock.second + clock.shift
    match date.moved (moment / dayLength) with
    | none => .error .beyondCalendar
    | some date =>
      .ok (date.chars ++ ' ' :: Clock.chars (moment % dayLength).toNat (clock.millionths % Clock.fullSecond))

/-- What follows the mark between a day and a time of day. -/
def afterDayMark : List Char → List Char
  | 'T' :: rest => rest
  | 't' :: rest => rest
  | text => text.dropWhile isSpaceOrTab

/-- The date or time that a text spells, in the one form. -/
def stampChars (text : List Char) : Except Fault (List Char) :=
  match readDay text with
  | none => .error .malformed
  | some (date, []) =>
    match date.fault? with
    | some part => .error (.notOnCalendar part)
    | none => .ok date.chars
  | some (date, rest) =>
    match readClock (afterDayMark rest) with
    | some clock => if afterDayMark rest == rest then .error .malformed else momentChars date clock
    | none => .error .malformed

end WorkflowCompiler.Yaml

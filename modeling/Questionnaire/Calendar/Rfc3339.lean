import Questionnaire.Calendar

/-! Reading moments as RFC 3339 writes them, with any one byte between date and time. -/
namespace Questionnaire.Rfc3339

/-- The parts of a written moment. -/
inductive Part where
  | year
  | month
  | day
  | separator
  | hour
  | minute
  | second
  | fraction
  | offsetHour
  | offsetMinute
  deriving DecidableEq, Repr

def Part.name : Part → String
  | .year => "year"
  | .month => "month"
  | .day => "day"
  | .separator => "separator"
  | .hour => "hour"
  | .minute => "minute"
  | .second => "second"
  | .fraction => "subsecond"
  | .offsetHour => "offset hour"
  | .offsetMinute => "offset minute"

inductive Fault where
  | unreadable (part : Part)
  | punctuation
  | trailing
  | outOfRange (part : Part)
  deriving DecidableEq, Repr

def Fault.message : Fault → String
  | .unreadable part => s!"the '{part.name}' component could not be parsed"
  | .punctuation => "a character literal was not valid"
  | .trailing => "unexpected trailing characters; the end of input was expected"
  | .outOfRange part => s!"{part.name} was not in range"

def digit? (c : Char) : Option Int := if c.isDigit then some (c.toNat - '0'.toNat : Nat) else none

/-- A number of exactly two digits. -/
def two (part : Part) : List Char → Except Fault (Int × List Char)
  | a :: b :: rest =>
    match digit? a, digit? b with
    | some x, some y => .ok (10 * x + y, rest)
    | _, _ => .error (.unreadable part)
  | _ => .error (.unreadable part)

def four (part : Part) (s : List Char) : Except Fault (Int × List Char) := do
  let (high, rest) ← two part s
  let (low, rest) ← two part rest
  return (100 * high + low, rest)

def literal (mark : Char) : List Char → Except Fault (List Char)
  | c :: rest => if c = mark then .ok rest else .error .punctuation
  | [] => .error .punctuation

/-- Any one byte; of a longer character the rest is left over, and no hour starts with it. -/
def separator : List Char → Except Fault (List Char)
  | [] => .error (.unreadable .separator)
  | c :: rest => if c.utf8Size = 1 then .ok rest else .error (.unreadable .hour)

/-- Skip a fraction of a second, if there is one. -/
def fraction : List Char → Except Fault (List Char)
  | '.' :: rest =>
    if (rest.takeWhile Char.isDigit).isEmpty then .error (.unreadable .fraction)
    else .ok (rest.dropWhile Char.isDigit)
  | s => .ok s

/-- The offset from universal time in seconds. -/
def offset : List Char → Except Fault (Int × List Char)
  | c :: rest =>
    if c = 'Z' ∨ c = 'z' then .ok (0, rest)
    else if c = '+' ∨ c = '-' then do
      let (hours, rest) ← two .offsetHour rest
      if 23 < hours then .error (.unreadable .offsetHour)
      let rest ← literal ':' rest
      let (minutes, rest) ← two .offsetMinute rest
      if 59 < minutes then .error (.outOfRange .offsetMinute)
      let seconds := 3600 * hours + 60 * minutes
      return (if c = '-' then -seconds else seconds, rest)
    else .error (.unreadable .offsetHour)
  | [] => .error (.unreadable .offsetHour)

/-- A leap second stands at the end of a month of universal time. -/
def endsMonth (seconds : Int) : Bool :=
  match Moment.ofSeconds? seconds with
  | some m => m.second = Moment.secondsPerDay - 1 &&
      m.date.day = Date.daysInMonth m.date.year m.date.month
  | none => false

/-- The seconds since the beginning of 1970 of a written moment, without its fraction. A leap second
counts as the one before it. -/
def seconds? (s : List Char) : Except Fault Int := do
  let (year, s) ← four .year s
  let s ← literal '-' s
  let (month, s) ← two .month s
  if month = 0 then .error (.unreadable .month)
  let s ← literal '-' s
  let (day, s) ← two .day s
  let s ← separator s
  let (hour, s) ← two .hour s
  let s ← literal ':' s
  let (minute, s) ← two .minute s
  let s ← literal ':' s
  let (second, s) ← two .second s
  let s ← fraction s
  let (offset, s) ← offset s
  if s ≠ [] then .error .trailing
  if 12 < month then .error (.outOfRange .month)
  if day < 1 ∨ Date.daysInMonth year month < day then .error (.outOfRange .day)
  if 23 < hour then .error (.outOfRange .hour)
  if 59 < minute then .error (.outOfRange .minute)
  if 60 < second then .error (.outOfRange .second)
  let leap := second = 60
  let clock := 3600 * hour + 60 * minute + if leap then 59 else second
  let seconds := Moment.toSeconds ⟨⟨year, month, day⟩, clock⟩ - offset
  if leap ∧ !endsMonth seconds then .error (.outOfRange .second)
  return seconds

end Questionnaire.Rfc3339

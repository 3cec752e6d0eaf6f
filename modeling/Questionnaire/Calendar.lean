/-! Dates of the Gregorian calendar, extended to all years, and moments counted in seconds. -/
namespace Questionnaire

/-- A year, a month from 1 and a day from 1. -/
structure Date where
  year : Int
  month : Int
  day : Int
  deriving DecidableEq, Repr, Inhabited

namespace Date

def isLeap (year : Int) : Bool := year % 4 = 0 && (year % 100 ≠ 0 || year % 400 = 0)

def daysInMonth (year month : Int) : Int :=
  if month = 2 then if isLeap year then 29 else 28
  else if month = 4 ∨ month = 6 ∨ month = 9 ∨ month = 11 then 30
  else 31

/-- Days from 1 March of the year 0 to a date. Years are counted from March, so that a leap day is
the last of its year. -/
def dayNumber (d : Date) : Int :=
  let shifted := if d.month ≤ 2 then d.year - 1 else d.year
  let month := if d.month ≤ 2 then d.month + 9 else d.month - 3
  365 * shifted + shifted / 4 - shifted / 100 + shifted / 400 + (153 * month + 2) / 5 + d.day - 1

/-- The day number of 1 January 1970. -/
def epoch : Int := 719468

/-- The date of a day counted from 1 January 1970. -/
def ofDay (day : Int) : Date :=
  let n := day + epoch
  let era := n / 146097
  let ofEra := n % 146097
  let yearOfEra := (ofEra - ofEra / 1460 + ofEra / 36524 - ofEra / 146096) / 365
  let ofYear := ofEra - (365 * yearOfEra + yearOfEra / 4 - yearOfEra / 100)
  let month := (5 * ofYear + 2) / 153
  let day := ofYear - (153 * month + 2) / 5 + 1
  let year := yearOfEra + era * 400
  if month < 10 then ⟨year, month + 3, day⟩ else ⟨year + 1, month - 9, day⟩

/-- Days from 1 January 1970 to a date. -/
def toDay (d : Date) : Int := d.dayNumber - epoch

/-- Months from the beginning of the year 0. -/
def monthNumber (d : Date) : Int := 12 * d.year + d.month

end Date

/-- A date and the second of its day, in universal time. -/
structure Moment where
  date : Date
  second : Int
  deriving DecidableEq, Repr, Inhabited

namespace Moment

def secondsPerDay : Int := 86400

/-- The first second of the year -9999. -/
def firstSecond : Int := -377705116800

/-- The last second of the year 9999. -/
def lastSecond : Int := 253402300799

/-- The moment some seconds after the beginning of 1970, if its year has at most four digits. -/
def ofSeconds? (seconds : Int) : Option Moment :=
  if firstSecond ≤ seconds ∧ seconds ≤ lastSecond then
    some ⟨.ofDay (seconds / secondsPerDay), seconds % secondsPerDay⟩
  else none

def toSeconds (m : Moment) : Int := m.date.toDay * secondsPerDay + m.second

def hour (m : Moment) : Int := m.second / 3600

def minute (m : Moment) : Int := m.second / 60 % 60

/-- Whether the day of the month and the second of the day come before those of another moment. -/
def earlierInMonth (a b : Moment) : Bool :=
  a.date.day < b.date.day || (a.date.day = b.date.day && a.second < b.second)

/-- Whole months from one moment to another, counted toward zero. -/
def wholeMonths (start finish : Moment) : Int :=
  let months := finish.date.monthNumber - start.date.monthNumber
  if 0 < months ∧ earlierInMonth finish start then months - 1
  else if months < 0 ∧ earlierInMonth start finish then months + 1
  else months

/-- Whole years from one moment to another, counted toward zero. -/
def wholeYears (start finish : Moment) : Int := (wholeMonths start finish).tdiv 12

end Moment

end Questionnaire

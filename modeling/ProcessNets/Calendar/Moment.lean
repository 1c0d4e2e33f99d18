/-!
# Moments of the calendar

Dates of the Gregorian calendar with a time of day, and their distance from the start of 1970.
-/

namespace ProcessNets.Calendar

/-! ### Months and years -/

def isLeapYear (year : Nat) : Bool :=
  year % 4 == 0 && (year % 100 != 0 || year % 400 == 0)

/-- The length of a month, counted from 1. -/
def daysInMonth (year month : Nat) : Nat :=
  if month == 2 then if isLeapYear year then 29 else 28
  else if month == 4 || month == 6 || month == 9 || month == 11 then 30
  else 31

/-- The days of the years from 1 to the year before. -/
def daysBeforeYear (year : Nat) : Nat :=
  let past := year - 1
  past * 365 + past / 4 - past / 100 + past / 400

/-- The days of the months before the given one in its year. -/
def daysBeforeMonth (year month : Nat) : Nat :=
  (List.range' 1 (month - 1)).foldl (fun days m => days + daysInMonth year m) 0

/-! ### Moments -/

/-- A date with a time of day. -/
structure Moment where
  year : Nat
  month : Nat
  day : Nat
  hour : Nat := 0
  minute : Nat := 0
  second : Nat := 0
deriving DecidableEq, Repr

namespace Moment

/-- Whether the date is one of the calendar: years have four digits. -/
def onCalendar (m : Moment) : Bool :=
  1 ≤ m.year && m.year ≤ 9999 && 1 ≤ m.month && m.month ≤ 12 &&
    1 ≤ m.day && m.day ≤ daysInMonth m.year m.month

/-- The number of the day, 1 January of year 1 being day 1. -/
def dayNumber (m : Moment) : Nat :=
  daysBeforeYear m.year + daysBeforeMonth m.year m.month + m.day

/-- Seconds since the start of 1970 by the local clock, negative before it. -/
def seconds (m : Moment) : Int :=
  let epoch : Moment := { year := 1970, month := 1, day := 1 }
  ((m.dayNumber : Int) - epoch.dayNumber) * 86400 + (m.hour * 3600 + m.minute * 60 + m.second : Nat)

end Moment

end ProcessNets.Calendar

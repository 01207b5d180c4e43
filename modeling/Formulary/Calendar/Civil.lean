/-!
# The civil calendar

Days of the proleptic Gregorian calendar are numbered from 1970-01-01, which is day 0.  A year may
be zero or negative.

* `Civil.yearStart`, `Civil.yearOf`: the first day of a year, and the year of a day.
* `Civil.ofYearMonthDay?`, `Civil.ofOrdinal?`, `Civil.ofWeek?`, `Civil.ofIsoWeek?`: the day that a
  description names, if there is one in the supported years.
* `Civil.month`, `Civil.dayOfMonth`, `Civil.weekday`, `Civil.isoYear`, …: the descriptions of a day.
-/

namespace Formulary.Civil

def firstYear : Int := -262143

def lastYear : Int := 262142

def supported (year : Int) : Bool := firstYear ≤ year && year ≤ lastYear

/-! ## Years -/

/-- Every fourth year has a leap day, of the full centuries only every fourth. -/
def isLeap (year : Int) : Bool := year % 4 = 0 && (year % 100 ≠ 0 || year % 400 = 0)

def yearLength (year : Int) : Nat := if isLeap year then 366 else 365

/-- The first day of a year: 365 days for every year before it, and the leap days. -/
def yearStart (year : Int) : Int :=
  let y := year - 1
  365 * y + y / 4 - y / 100 + y / 400 - 719162

/-- The year of a day.  The mean length of a year gives it up to one. -/
def yearOf (day : Int) : Int :=
  let guess := (day + 719162) * 400 / 146097 + 1
  if day < yearStart guess then guess - 1
  else if yearStart (guess + 1) ≤ day then guess + 1
  else guess

def ordinal (day : Int) : Int := day - yearStart (yearOf day) + 1

/-! ## Months -/

def monthLengths (year : Int) : List Nat :=
  [31, if isLeap year then 29 else 28, 31, 30, 31, 30, 31, 31, 30, 31, 30, 31]

/-- The number of days in a month, the first of which is 1; there are none in any other. -/
def monthLength (year : Int) (month : Nat) : Nat :=
  if month = 0 then 0 else (monthLengths year).getD (month - 1) 0

def daysBeforeMonth (year : Int) (month : Nat) : Nat :=
  ((monthLengths year).take (month - 1)).foldr (· + ·) 0

/-- Finds the month, counted from `month`, and the day in it, that lie `days` days on. -/
def splitMonths (month days : Nat) : List Nat → Nat × Nat
  | [] => (month, days + 1)
  | length :: lengths =>
    if days < length then (month, days + 1) else splitMonths (month + 1) (days - length) lengths

/-- The month of a day and the day of the month, both from 1. -/
def monthAndDay (day : Int) : Nat × Nat :=
  splitMonths 1 (ordinal day - 1).toNat (monthLengths (yearOf day))

def month (day : Int) : Nat := (monthAndDay day).1

def dayOfMonth (day : Int) : Nat := (monthAndDay day).2

def quarter (day : Int) : Nat := (month day - 1) / 3 + 1

/-! ## Weeks -/

/-- The day of the week, where Monday is 0. -/
def weekday (day : Int) : Int := (day + 3) % 7

/-- How many days a day of the week lies after the first day of its week. -/
def daysSince (first weekday : Int) : Int := (weekday - first) % 7

/-- The week of a day in its year, where weeks begin on `first` and week 1 is the first that begins
in the year. -/
def weekFrom (first day : Int) : Int := (ordinal day - daysSince first (weekday day) + 6) / 7

/-- The Thursday of a day's week, counted from Monday; it lies in the week's year. -/
def thursday (day : Int) : Int := day - weekday day + 3

/-- The year that a day's week belongs to, in the international numbering of weeks. -/
def isoYear (day : Int) : Int := yearOf (thursday day)

def isoWeek (day : Int) : Int := (ordinal (thursday day) - 1) / 7 + 1

/-! ## Days from descriptions -/

def ofYearMonthDay? (year : Int) (month day : Nat) : Option Int :=
  if supported year && 1 ≤ day && day ≤ monthLength year month then
    some (yearStart year + daysBeforeMonth year month + (day - 1 : Nat))
  else none

def ofOrdinal? (year ordinal : Int) : Option Int :=
  if supported year && 1 ≤ ordinal && ordinal ≤ yearLength year then
    some (yearStart year + (ordinal - 1))
  else none

/-- The ordinal of the day of a week, where weeks begin on `first`; it may lie outside the year. -/
def ordinalInWeek (first year week weekday : Int) : Int :=
  1 + daysSince (Civil.weekday (yearStart year)) first + (week - 1) * 7 + daysSince first weekday

/-- The day of a week in the international numbering, which may lie in a neighbouring year. -/
def ofIsoWeek? (year week weekday : Int) : Option Int :=
  let day := thursday (yearStart year + 3) - 3 + (week - 1) * 7 + weekday
  if 1 ≤ week && isoYear day = year && isoWeek day = week && supported (yearOf day) then some day
  else none

end Formulary.Civil

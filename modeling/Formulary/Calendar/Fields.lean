import Formulary.Calendar.Instant
import Formulary.Calendar.Pattern

/-!
# Date fields

What has been read of a date and a time is a set of fields, each of which may be missing.  A field
that is given twice must be given the same value.  A date or an instant follows from the fields if
there are enough of them and they agree.

* `Calendar.Failure`: why a text is not a date.
* `Calendar.Fields`, `Calendar.Fields.setNumber`: the fields and how a number fills them.
* `Calendar.Fields.date`, `Calendar.Fields.time`, `Calendar.Fields.dateTime`: what follows.
-/

namespace Formulary.Calendar

inductive Failure where
  | outOfRange
  | impossible
  | notEnough
  | invalid
  | tooShort
  | tooLong
  | badPattern
  deriving DecidableEq, Repr

def Failure.message : Failure → String
  | outOfRange => "input is out of range"
  | impossible => "no possible date and time matching input"
  | notEnough => "input is not enough for unique date and time"
  | invalid => "input contains invalid characters"
  | tooShort => "premature end of input"
  | tooLong => "trailing input"
  | badPattern => "bad or unsupported format string"

/-- The fields of a date, a time and an offset.  A weekday is counted from Monday, which is 0; an
hour is kept as its half of the day and its place in that half. -/
structure Fields where
  year : Option Int := none
  century : Option Int := none
  yearOfCentury : Option Int := none
  isoYear : Option Int := none
  isoYearOfCentury : Option Int := none
  quarter : Option Int := none
  month : Option Int := none
  day : Option Int := none
  weekFromSunday : Option Int := none
  weekFromMonday : Option Int := none
  isoWeek : Option Int := none
  weekday : Option Int := none
  ordinal : Option Int := none
  halfDay : Option Int := none
  hourOfHalf : Option Int := none
  minute : Option Int := none
  second : Option Int := none
  nanosecond : Option Int := none
  timestamp : Option Int := none
  offset : Option Int := none
  deriving DecidableEq, Repr

namespace Fields

/-! ## Filling fields -/

/-- The new content of a field; a field that is there already must agree. -/
def agree (known : Option Int) (value : Int) : Except Failure (Option Int) :=
  match known with
  | some v => if v = value then .ok known else .error .impossible
  | none => .ok (some value)

/-- The new content of a field whose values lie between bounds. -/
def agreeWithin (lowest highest : Int) (known : Option Int) (value : Int) :
    Except Failure (Option Int) :=
  if lowest ≤ value ∧ value ≤ highest then agree known value else .error .outOfRange

def setYear (f : Fields) (v : Int) : Except Failure Fields := do
  return { f with year := ← agreeWithin (-2147483648) 2147483647 f.year v }

def setMonth (f : Fields) (v : Int) : Except Failure Fields := do
  return { f with month := ← agreeWithin 1 12 f.month v }

def setWeekday (f : Fields) (v : Int) : Except Failure Fields := do
  return { f with weekday := ← agree f.weekday v }

def setOrdinal (f : Fields) (v : Int) : Except Failure Fields := do
  return { f with ordinal := ← agreeWithin 1 366 f.ordinal v }

/-- Fills the half of the day: 0 before noon, 1 after it. -/
def setHalfDay (f : Fields) (v : Int) : Except Failure Fields := do
  return { f with halfDay := ← agree f.halfDay v }

/-- Fills the hour, from 0 to 23, as a half of the day and an hour in it. -/
def setHour (f : Fields) (v : Int) : Except Failure Fields := do
  if v < 0 ∨ 23 < v then throw .outOfRange
  let f ← f.setHalfDay (v / 12)
  return { f with hourOfHalf := ← agree f.hourOfHalf (v % 12) }

def setMinute (f : Fields) (v : Int) : Except Failure Fields := do
  return { f with minute := ← agreeWithin 0 59 f.minute v }

/-- Fills the second; 60 is a leap second. -/
def setSecond (f : Fields) (v : Int) : Except Failure Fields := do
  return { f with second := ← agreeWithin 0 60 f.second v }

def setNanosecond (f : Fields) (v : Int) : Except Failure Fields := do
  return { f with nanosecond := ← agreeWithin 0 999999999 f.nanosecond v }

/-- Fills the distance from universal time, in seconds. -/
def setOffset (f : Fields) (v : Int) : Except Failure Fields := do
  return { f with offset := ← agree f.offset v }

def setNumber (f : Fields) (field : Field) (v : Int) : Except Failure Fields :=
  match field with
  | .year => f.setYear v
  | .century => do return { f with century := ← agreeWithin 0 2147483647 f.century v }
  | .yearOfCentury => do
    return { f with yearOfCentury := ← agreeWithin 0 99 f.yearOfCentury v }
  | .isoYear => do
    return { f with isoYear := ← agreeWithin (-2147483648) 2147483647 f.isoYear v }
  | .isoYearOfCentury => do
    return { f with isoYearOfCentury := ← agreeWithin 0 99 f.isoYearOfCentury v }
  | .quarter => do return { f with quarter := ← agreeWithin 1 4 f.quarter v }
  | .month => f.setMonth v
  | .day => do return { f with day := ← agreeWithin 1 31 f.day v }
  | .weekFromSunday => do
    return { f with weekFromSunday := ← agreeWithin 0 53 f.weekFromSunday v }
  | .weekFromMonday => do
    return { f with weekFromMonday := ← agreeWithin 0 53 f.weekFromMonday v }
  | .isoWeek => do return { f with isoWeek := ← agreeWithin 1 53 f.isoWeek v }
  | .weekdayFromSunday =>
    if 0 ≤ v ∧ v ≤ 6 then f.setWeekday ((v + 6) % 7) else .error .outOfRange
  | .weekdayFromMonday =>
    if 1 ≤ v ∧ v ≤ 7 then f.setWeekday (v - 1) else .error .outOfRange
  | .ordinal => f.setOrdinal v
  | .hour => f.setHour v
  | .hour12 => do
    if v < 1 ∨ 12 < v then throw .outOfRange
    return { f with hourOfHalf := ← agree f.hourOfHalf (v % 12) }
  | .minute => f.setMinute v
  | .second => f.setSecond v
  | .nanosecond => f.setNanosecond v
  | .timestamp => do return { f with timestamp := ← agree f.timestamp v }

/-! ## The date -/

/-- The year from a full year, a century and a year of the century.  With the latter alone the years
1970 to 2069 are meant; a negative year has neither of them. -/
def resolveYear (year century yearOfCentury : Option Int) : Except Failure (Option Int) :=
  match year, century, yearOfCentury with
  | y, none, none => .ok y
  | some y, q, r =>
    if 0 ≤ y ∧ q.getD (y / 100) = y / 100 ∧ r.getD (y % 100) = y % 100 then .ok (some y)
    else .error .impossible
  | none, some q, some r =>
    if q * 100 + r ≤ 2147483647 then .ok (some (q * 100 + r)) else .error .outOfRange
  | none, none, some r => .ok (some (if r < 70 then 2000 + r else 1900 + r))
  | none, some _, none => .error .notEnough

/-- A field that is given has this value. -/
def allows (known : Option Int) (value : Int) : Bool := known.all (· = value)

/-- The given century and year of the century are those of a year; a negative year has neither. -/
def allowsYear (year century yearOfCentury : Option Int) (value : Int) : Bool :=
  allows year value &&
    if 0 ≤ value then allows century (value / 100) && allows yearOfCentury (value % 100)
    else century.isNone && yearOfCentury.isNone

def allowsCivil (f : Fields) (d : Int) : Bool :=
  allowsYear f.year f.century f.yearOfCentury (Civil.yearOf d) &&
    allows f.month (Civil.month d) && allows f.day (Civil.dayOfMonth d)

def allowsIsoWeek (f : Fields) (d : Int) : Bool :=
  allowsYear f.isoYear none f.isoYearOfCentury (Civil.isoYear d) &&
    allows f.isoWeek (Civil.isoWeek d) && allows f.weekday (Civil.weekday d)

def allowsOrdinal (f : Fields) (d : Int) : Bool :=
  allows f.ordinal (Civil.ordinal d) && allows f.weekFromSunday (Civil.weekFrom 6 d) &&
    allows f.weekFromMonday (Civil.weekFrom 0 d)

/-- A day that must exist, and must pass a test. -/
def checked (day : Option Int) (test : Int → Bool) : Except Failure Int :=
  match day with
  | none => .error .outOfRange
  | some d => if test d then .ok d else .error .impossible

/-- The day of a week of a year, where weeks begin on `first`. -/
def weekDate (first year week weekday : Int) : Except Failure Int :=
  if !Civil.supported year then .error .outOfRange
  else match Civil.ofOrdinal? year (Civil.ordinalInWeek first year week weekday) with
    | some d => .ok d
    | none => .error .impossible

/-- The day that the fields name, from the first of these that are given: year, month and day; year
and ordinal; year, week and weekday; year, week and weekday of the international numbering.  The
other fields must agree with it. -/
def dateOf (f : Fields) (year isoYear : Option Int) : Except Failure Int :=
  let agrees (d : Int) : Bool := f.allowsCivil d && f.allowsIsoWeek d && f.allowsOrdinal d
  match year, f.month, f.day, f.ordinal, f.weekFromSunday, f.weekFromMonday, f.weekday with
  | some y, some m, some d, _, _, _, _ =>
    checked (Civil.ofYearMonthDay? y m.toNat d.toNat) fun d =>
      f.allowsIsoWeek d && f.allowsOrdinal d
  | some y, _, _, some o, _, _, _ => checked (Civil.ofOrdinal? y o) agrees
  | some y, _, _, _, some w, _, some wd => do checked (some (← weekDate 6 y w wd)) agrees
  | some y, _, _, _, _, some w, some wd => do checked (some (← weekDate 0 y w wd)) agrees
  | _, _, _, _, _, _, some wd =>
    match isoYear, f.isoWeek with
    | some y, some w =>
      checked (Civil.ofIsoWeek? y w wd) fun d => f.allowsCivil d && f.allowsOrdinal d
    | _, _ => .error .notEnough
  | _, _, _, _, _, _, none => .error .notEnough

def date (f : Fields) : Except Failure Int := do
  let year ← resolveYear f.year f.century f.yearOfCentury
  let isoYear ← resolveYear f.isoYear none f.isoYearOfCentury
  let d ← f.dateOf year isoYear
  if allows f.quarter (Civil.quarter d) then return d else throw .impossible

/-! ## The time -/

/-- A time of day: seconds since midnight, and nanoseconds on top. -/
structure TimeOfDay where
  seconds : Int
  nanos : Int
  deriving DecidableEq, Repr

/-- The time that the fields name.  Seconds may be missing, and then their fraction too; the second
60 is a leap second. -/
def time (f : Fields) : Except Failure TimeOfDay :=
  match f.halfDay, f.hourOfHalf, f.minute with
  | some half, some hour, some minute =>
    let start := (half * 12 + hour) * 3600 + minute * 60
    match f.second, f.nanosecond with
    | none, none => .ok ⟨start, 0⟩
    | none, some _ => .error .notEnough
    | some s, n =>
      if s = 60 then .ok ⟨start + 59, 1000000000 + n.getD 0⟩ else .ok ⟨start + s, n.getD 0⟩
  | _, _, _ => .error .notEnough

/-! ## The instant -/

def at? (day : Int) (t : TimeOfDay) : Except Failure Instant :=
  match Instant.of? (day * 86400 + t.seconds) t.nanos.toNat with
  | some i => .ok i
  | none => .error .outOfRange

/-- The given timestamp is that of an instant; for a leap second it may be that of the next. -/
def allowsTimestamp (f : Fields) (i : Instant) : Bool :=
  f.timestamp.all fun given =>
    given = i.seconds || (1000000000 ≤ i.nanos && given = i.seconds + 1)

/-- The instant of a timestamp, with which the other fields must agree. -/
def ofTimestamp (f : Fields) (given : Int) : Except Failure Instant :=
  match Instant.of? given 0 with
  | none => .error .outOfRange
  | some i => do
    let leap := f.second = some 60
    if leap ∧ i.second ≠ 59 ∧ i.second ≠ 0 then throw .impossible
    let i ← if leap ∧ i.second = 0 then
        (match Instant.of? (given - 1) 0 with
        | some earlier => .ok earlier
        | none => .error .outOfRange)
      else .ok i
    let f ← if leap then .ok f else f.setSecond i.second
    let f ← f.setYear (Civil.yearOf i.day)
    let f ← f.setOrdinal (Civil.ordinal i.day)
    let f ← f.setHour i.hour
    let f ← f.setMinute i.minute
    at? (← f.date) (← f.time)

def failed {α : Type} (why : Failure) : Except Failure α → Bool
  | .error e => e = why
  | .ok _ => false

/-- The instant that the fields name: that of their date and time, or else of their timestamp.  The
offset is not used. -/
def dateTime (f : Fields) : Except Failure Instant :=
  match f.date, f.time with
  | .ok d, .ok t => do
    let i ← at? d t
    if f.allowsTimestamp i then return i else throw .impossible
  | date, time =>
    match f.timestamp with
    | none => do at? (← date) (← time)
    | some given =>
      if failed .outOfRange date || failed .outOfRange time then .error .outOfRange
      else if failed .impossible date || failed .impossible time then .error .impossible
      else f.ofTimestamp given

end Fields

end Formulary.Calendar

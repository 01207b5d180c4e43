import Formulary.Calendar.Civil

/-!
# Instants

An instant is a number of whole seconds since 1970-01-01 00:00:00 and of nanoseconds on top.  In a
leap second there are more nanoseconds than a second has.

* `Instant`: the instants of the supported years.
* `Instant.of?`: the instant of some seconds and nanoseconds.
* `Instant.ofMillis?`, `Instant.toMillis`: instants as milliseconds.
* `Instant.text`: date and time of an instant.
-/

namespace Formulary

/-- An instant within the supported years.  A leap second may follow any whole second. -/
@[ext] structure Instant where
  seconds : Int
  nanos : Nat
  first_le : -8334601228800 ≤ seconds
  lt_end : seconds < 8210266876800
  nanos_lt : nanos < 2000000000
  deriving DecidableEq

namespace Instant

theorem firstSecond_eq : Civil.yearStart Civil.firstYear * 86400 = -8334601228800 := by decide

theorem endSecond_eq : Civil.yearStart (Civil.lastYear + 1) * 86400 = 8210266876800 := by decide

def epoch : Instant where
  seconds := 0
  nanos := 0
  first_le := by decide
  lt_end := by decide
  nanos_lt := by decide

instance : Inhabited Instant := ⟨epoch⟩

/-- The instant of some seconds and nanoseconds.  None is made outside the supported years, and no
leap second but after the last second of a minute. -/
def of? (seconds : Int) (nanos : Nat) : Option Instant :=
  if h : (-8334601228800 ≤ seconds ∧ seconds < 8210266876800) ∧
      nanos < 2000000000 ∧ (1000000000 ≤ nanos → seconds % 60 = 59) then
    some ⟨seconds, nanos, h.1.1, h.1.2, h.2.1⟩
  else none

def toMillis (t : Instant) : Int := t.seconds * 1000 + (t.nanos / 1000000 : Nat)

def ofMillis? (millis : Int) : Option Instant :=
  of? (millis / 1000) ((millis % 1000).toNat * 1000000)

/-! ## Date and time -/

def day (t : Instant) : Int := t.seconds / 86400

def secondOfDay (t : Instant) : Nat := (t.seconds % 86400).toNat

def hour (t : Instant) : Nat := t.secondOfDay / 3600

def minute (t : Instant) : Nat := t.secondOfDay / 60 % 60

/-- The second of the minute; a leap second counts as the next one. -/
def second (t : Instant) : Nat := t.secondOfDay % 60 + t.nanos / 1000000000

/-- A number in decimal digits, with zeros in front up to a width. -/
def padded (width n : Nat) : List Char :=
  let digits := Nat.toDigits 10 n
  List.replicate (width - digits.length) '0' ++ digits

/-- A year of four digits is written with these alone, any other with its sign. -/
def yearText (year : Int) : List Char :=
  if 0 ≤ year ∧ year ≤ 9999 then padded 4 year.natAbs
  else (if year < 0 then '-' else '+') :: padded 4 year.natAbs

def text (t : Instant) : String :=
  String.ofList (yearText (Civil.yearOf t.day) ++ '-' :: padded 2 (Civil.month t.day) ++
    '-' :: padded 2 (Civil.dayOfMonth t.day) ++ ' ' :: padded 2 t.hour ++
    ':' :: padded 2 t.minute ++ ':' :: padded 2 t.second)

end Instant

end Formulary

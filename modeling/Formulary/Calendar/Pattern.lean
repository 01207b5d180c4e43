import Formulary.Text.Basic

/-!
# Date patterns

A pattern says how a date is written: a `%` and a letter stand for a field, white space for any
white space, and other text for itself.

* `Calendar.Field`, `Calendar.Item`: what a pattern is made of.
* `Calendar.Item.ofPattern`: the items of a pattern.  What makes no sense ends the items with
  `invalid`.
-/

namespace Formulary.Calendar

/-- A field written as a number. -/
inductive Field where
  | year
  | century
  | yearOfCentury
  | isoYear
  | isoYearOfCentury
  | quarter
  | month
  | day
  | weekFromSunday
  | weekFromMonday
  | isoWeek
  | weekdayFromSunday
  | weekdayFromMonday
  | ordinal
  | hour
  | hour12
  | minute
  | second
  | nanosecond
  | timestamp
  deriving DecidableEq, Repr

inductive Item where
  | literal (text : List Char)
  | space
  | number (field : Field)
  | monthName (long : Bool)
  | weekdayName (long : Bool)
  /-- Morning or afternoon. -/
  | halfDay
  /-- A point and the fraction of a second, or nothing. -/
  | fraction
  /-- A set number of digits of the fraction, with or without the point. -/
  | fixedFraction (point : Bool) (digits : Nat)
  | zoneName
  /-- The distance from universal time; a lenient one may lack minutes or be a `Z`. -/
  | offset (lenient : Bool)
  /-- Date, time and offset in the usual order. -/
  | dateTimeOffset
  | invalid
  deriving DecidableEq, Repr

def Field.ofLetter? : Char → Option Field
  | 'Y' => some .year
  | 'C' => some .century
  | 'y' => some .yearOfCentury
  | 'G' => some .isoYear
  | 'g' => some .isoYearOfCentury
  | 'q' => some .quarter
  | 'm' => some .month
  | 'd' => some .day
  | 'e' => some .day
  | 'U' => some .weekFromSunday
  | 'W' => some .weekFromMonday
  | 'V' => some .isoWeek
  | 'w' => some .weekdayFromSunday
  | 'u' => some .weekdayFromMonday
  | 'j' => some .ordinal
  | 'H' => some .hour
  | 'k' => some .hour
  | 'I' => some .hour12
  | 'l' => some .hour12
  | 'M' => some .minute
  | 'S' => some .second
  | 'f' => some .nanosecond
  | 's' => some .timestamp
  | _ => none

namespace Item

def mark (c : Char) : Item := literal [c]

def clock : List Item :=
  [number .hour, mark ':', number .minute, mark ':', number .second]

/-- Month, day and year of the century. -/
def shortDate : List Item :=
  [number .month, mark '/', number .day, mark '/', number .yearOfCentury]

/-- The items of a letter after `%`. -/
def ofLetter? (c : Char) : Option (List Item) :=
  match c with
  | 'A' => some [weekdayName true]
  | 'a' => some [weekdayName false]
  | 'B' => some [monthName true]
  | 'b' => some [monthName false]
  | 'h' => some [monthName false]
  | 'P' => some [halfDay]
  | 'p' => some [halfDay]
  | 'Z' => some [zoneName]
  | 'z' => some [offset false]
  | '+' => some [dateTimeOffset]
  | '%' => some [mark '%']
  | 'n' => some [space]
  | 't' => some [space]
  | 'D' => some shortDate
  | 'x' => some shortDate
  | 'F' => some [number .year, mark '-', number .month, mark '-', number .day]
  | 'v' => some [number .day, mark '-', monthName false, mark '-', number .year]
  | 'R' => some [number .hour, mark ':', number .minute]
  | 'T' => some clock
  | 'X' => some clock
  | 'r' =>
    some [number .hour12, mark ':', number .minute, mark ':', number .second, space, halfDay]
  | 'c' =>
    some ([weekdayName false, space, monthName false, space, number .day, space] ++ clock ++
      [space, number .year])
  | c => (Field.ofLetter? c).map fun f => [number f]

/-- Puts a character in front of a run of literal text. -/
def prepend (c : Char) : List Item → List Item
  | literal text :: rest => literal (c :: text) :: rest
  | items => mark c :: items

def isLiteral (c : Char) : Bool := c ≠ '%' && !isSpace c

/-- The items of a pattern; a run of literal text is one item. -/
def ofPattern : List Char → List Item
  | [] => []
  | '%' :: ':' :: ':' :: ':' :: 'z' :: cs => offset false :: ofPattern cs
  | '%' :: ':' :: ':' :: 'z' :: cs => offset false :: ofPattern cs
  | '%' :: ':' :: 'z' :: cs => offset false :: ofPattern cs
  | '%' :: '#' :: 'z' :: cs => offset true :: ofPattern cs
  | '%' :: '.' :: 'f' :: cs => fraction :: ofPattern cs
  | '%' :: '.' :: '3' :: 'f' :: cs => fixedFraction true 3 :: ofPattern cs
  | '%' :: '.' :: '6' :: 'f' :: cs => fixedFraction true 6 :: ofPattern cs
  | '%' :: '.' :: '9' :: 'f' :: cs => fixedFraction true 9 :: ofPattern cs
  | '%' :: '3' :: 'f' :: cs => fixedFraction false 3 :: ofPattern cs
  | '%' :: '6' :: 'f' :: cs => fixedFraction false 6 :: ofPattern cs
  | '%' :: '9' :: 'f' :: cs => fixedFraction false 9 :: ofPattern cs
  | '%' :: '-' :: c :: cs | '%' :: '0' :: c :: cs | '%' :: '_' :: c :: cs =>
    match Field.ofLetter? c with
    | some f => number f :: ofPattern cs
    | none => [invalid]
  | '%' :: c :: cs =>
    match ofLetter? c with
    | some items => items ++ ofPattern cs
    | none => [invalid]
  | ['%'] => [invalid]
  | c :: cs =>
    if isSpace c then space :: ofPattern cs
    else if cs.head?.any isLiteral then prepend c (ofPattern cs)
    else mark c :: ofPattern cs

end Item

end Formulary.Calendar

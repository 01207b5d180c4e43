import Formulary.Calendar.Fields
import Formulary.Text.Basic

/-!
# Reading dates

A text is read along the items of a pattern.  Each item takes some characters from the front and
fills fields; at the end nothing may be left.

* `Calendar.Scan`: a reader of the front of a text.
* `Calendar.Fields.read`: the fields of a text.
* `Instant.read`: the instant of a text that gives date and time, or only a date.
-/

namespace Formulary.Calendar

/-- A reader of the front of a text: a value and what follows, or why there is none. -/
abbrev Scan (α : Type) := List Char → Except Failure (α × List Char)

namespace Scan

def trim (cs : List Char) : List Char := cs.dropWhile isSpace

def shorterThan (bytes : Nat) (cs : List Char) : Bool := utf8Length (cs.take bytes) < bytes

/-- A letter in lower case, and the word it is in. -/
def sameWord (word cs : List Char) : Bool := cs.map Char.toLower == word

/-! ## Numbers -/

/-- The largest number that can be read. -/
def largest : Nat := 9223372036854775807

/-- Reads digits, at least `least` and at most `most` of them. -/
def digits (least : Nat) (most : Option Nat) : Scan Int := fun cs =>
  if shorterThan least cs then .error .tooShort
  else
    let window := match most with
      | some n => cs.take n
      | none => cs
    let ds := window.takeWhile Char.isDigit
    let n := Nat.ofDigitChars 10 ds 0
    if n > largest then .error .outOfRange
    else if ds.length < least then .error .invalid
    else .ok (n, cs.drop ds.length)

def width : Field → Option Nat
  | .year | .isoYear => some 4
  | .quarter | .weekdayFromSunday | .weekdayFromMonday => some 1
  | .ordinal => some 3
  | .nanosecond => some 9
  | .timestamp => none
  | _ => some 2

/-- A year may have a sign, and then any number of digits. -/
def isSigned : Field → Bool
  | .year | .isoYear => true
  | _ => false

def number (field : Field) : Scan Int := fun cs =>
  match isSigned field, trim cs with
  | true, '-' :: rest => (digits 1 none rest).map fun (n, cs) => (-n, cs)
  | true, '+' :: rest => digits 1 none rest
  | _, cs => digits 1 (width field) cs

/-- Reads exactly so many digits of the fraction of a second, as nanoseconds. -/
def fixedNanos (count : Nat) : Scan Int := fun cs =>
  (digits count (some count) cs).map fun (n, rest) => (n * (Nat.pow 10 (9 - count) : Nat), rest)

/-- Reads the digits of the fraction of a second, as nanoseconds; those after the ninth are cut
off. -/
def nanos : Scan Int := fun cs =>
  (digits 1 (some 9) cs).map fun (n, rest) =>
    (n * (Nat.pow 10 (9 - (cs.length - rest.length)) : Nat), rest.dropWhile Char.isDigit)

/-! ## Names -/

/-- The months: the first three letters, and the rest. -/
def months : List (List Char × List Char) :=
  [("jan", "uary"), ("feb", "ruary"), ("mar", "ch"), ("apr", "il"), ("may", ""), ("jun", "e"),
    ("jul", "y"), ("aug", "ust"), ("sep", "tember"), ("oct", "ober"), ("nov", "ember"),
    ("dec", "ember")].map fun (a, b) => (a.toList, b.toList)

/-- The days of the week from Monday on: the first three letters, and the rest. -/
def weekdays : List (List Char × List Char) :=
  [("mon", "day"), ("tue", "sday"), ("wed", "nesday"), ("thu", "rsday"), ("fri", "day"),
    ("sat", "urday"), ("sun", "day")].map fun (a, b) => (a.toList, b.toList)

/-- Reads a name from a list by its first three letters, in any case, and gives its place from 0.
The rest of the name is taken if `long` is set and it is there. -/
def name (names : List (List Char × List Char)) (long : Bool) : Scan Int := fun cs =>
  if shorterThan 3 cs then .error .tooShort
  else match (names.zipIdx.find? fun (n, _) => sameWord n.1 (cs.take 3)) with
    | none => .error .invalid
    | some ((_, suffix), place) =>
      let rest := cs.drop 3
      let rest := if long && sameWord suffix (rest.take suffix.length)
        then rest.drop suffix.length else rest
      .ok (place, rest)

/-- Reads `am` or `pm` in any case, as 0 or 1. -/
def halfDay : Scan Int := fun cs =>
  if shorterThan 2 cs then .error .tooShort
  else if sameWord ['a', 'm'] (cs.take 2) then .ok (0, cs.drop 2)
  else if sameWord ['p', 'm'] (cs.take 2) then .ok (1, cs.drop 2)
  else .error .invalid

/-! ## Offsets -/

/-- Reads two digits; the first of them may be bounded. -/
def twoDigits : Scan Nat := fun cs =>
  if shorterThan 2 cs then .error .tooShort
  else match cs with
    | a :: b :: rest =>
      if a.isDigit && b.isDigit then .ok (Nat.ofDigitChars 10 [a, b] 0, rest)
      else .error .invalid
    | _ => .error .invalid

/-- Reads the sign of an offset: true for a minus. -/
def sign : Scan Bool
  | [] => .error .tooShort
  | c :: cs =>
    if c = '+' then .ok (false, cs)
    else if c = '-' ∨ c = '\u2212' then .ok (true, cs)
    else .error .invalid

/-- Reads the minutes of an offset.  Where they may be missing, one character cannot stand for
them. -/
def offsetMinutes (mayLack : Bool) : Scan Nat := fun cs =>
  match twoDigits cs with
  | .ok (n, rest) => if n < 60 then .ok (n, rest) else .error .outOfRange
  | .error .tooShort => if mayLack && cs.isEmpty then .ok (0, cs) else .error .tooShort
  | .error e => .error e

/-- Reads hours and minutes with a sign, in seconds; colons and white space may part them. -/
def signedOffset (mayLack : Bool) : Scan Int := fun cs => do
  let (negative, cs) ← sign cs
  let (hours, cs) ← twoDigits cs
  let (minutes, cs) ← offsetMinutes mayLack (cs.dropWhile fun c => c = ':' || isSpace c)
  let seconds : Int := hours * 3600 + minutes * 60
  return (if negative then -seconds else seconds, cs)

/-- Reads an offset that may also be a `Z`. -/
def zuluOffset (mayLack : Bool) : Scan Int
  | 'Z' :: cs => .ok (0, cs)
  | 'z' :: cs => .ok (0, cs)
  | cs => signedOffset mayLack cs

/-- Reads the offset after a date and a time, which may also be `UTC`. -/
def closingOffset : Scan Int := fun cs =>
  if sameWord ['u', 't', 'c'] (cs.take 3) then .ok (0, cs.drop 3) else zuluOffset false cs

end Scan

/-! ## Items -/

namespace Fields

def fill (set : Int → Except Failure Fields) (scanned : Except Failure (Int × List Char)) :
    Except Failure (Fields × List Char) := do
  let (v, rest) ← scanned
  return (← set v, rest)

def readLiteral (f : Fields) (text cs : List Char) : Except Failure (Fields × List Char) :=
  if utf8Length cs < utf8Length text then .error .tooShort
  else if text.isPrefixOf cs then .ok (f, cs.drop text.length)
  else .error .invalid

/-- Reads a fraction of a second after a point, if there is a point. -/
def readFraction (f : Fields) (scan : Scan Int) : List Char → Except Failure (Fields × List Char)
  | '.' :: cs => fill f.setNanosecond (scan cs)
  | cs => .ok (f, cs)

/-- Reads one item, other than a date with time and offset. -/
def readItem (f : Fields) (item : Item) (cs : List Char) : Except Failure (Fields × List Char) :=
  match item with
  | .literal text => f.readLiteral text cs
  | .space => .ok (f, Scan.trim cs)
  | .number field => fill (f.setNumber field) (Scan.number field cs)
  | .monthName long => fill (fun v => f.setMonth (v + 1)) (Scan.name Scan.months long cs)
  | .weekdayName long => fill f.setWeekday (Scan.name Scan.weekdays long cs)
  | .halfDay => fill f.setHalfDay (Scan.halfDay cs)
  | .fraction => f.readFraction Scan.nanos cs
  | .fixedFraction true count => f.readFraction (Scan.fixedNanos count) cs
  | .fixedFraction false count => fill f.setNanosecond (Scan.fixedNanos count cs)
  | .zoneName => .ok (f, cs.dropWhile (!isSpace ·))
  | .offset lenient =>
    let cs := Scan.trim cs
    fill f.setOffset (if lenient then Scan.zuluOffset true cs else Scan.signedOffset false cs)
  | .dateTimeOffset | .invalid => .error .badPattern

def readItems : List Item → Fields → List Char → Except Failure (Fields × List Char)
  | [], f, cs => .ok (f, cs)
  | item :: items, f, cs =>
    match f.readItem item cs with
    | .ok (f, cs) => readItems items f cs
    | .error e => .error e

/-- Year, month and day, where white space may stand before the dashes. -/
def dashedDate : List Item :=
  [.number .year, .space, Item.mark '-', .number .month, .space, Item.mark '-', .number .day]

/-- Hour, minute, second and fraction, where white space may stand before the colons. -/
def looseClock : List Item :=
  [.number .hour, .space, Item.mark ':', .number .minute, .space, Item.mark ':', .number .second,
    .fraction, .space]

/-- Reads a date, a `T` or a space, a time and an offset. -/
def readDateTimeOffset (f : Fields) (cs : List Char) : Except Failure (Fields × List Char) := do
  let (f, cs) ← readItems dashedDate f cs
  match cs with
  | [] => throw .tooShort
  | c :: cs =>
    if c = 't' ∨ c = 'T' ∨ c = ' ' then
      let (f, cs) ← readItems looseClock f cs
      fill f.setOffset (Scan.closingOffset (Scan.trim cs))
    else throw .invalid

def readPattern : List Item → Fields → List Char → Except Failure (Fields × List Char)
  | [], f, cs => .ok (f, cs)
  | item :: items, f, cs =>
    match (if item = .dateTimeOffset then f.readDateTimeOffset cs else f.readItem item cs) with
    | .ok (f, cs) => readPattern items f cs
    | .error e => .error e

def read (pattern text : String) : Except Failure Fields :=
  match readPattern (Item.ofPattern pattern.toList) {} text.toList with
  | .ok (f, []) => .ok f
  | .ok (_, _ :: _) => .error .tooLong
  | .error e => .error e

end Fields

end Formulary.Calendar

namespace Formulary.Instant

open Calendar

/-- The instant of a text that gives date and time by a pattern. -/
def readDateTime (pattern text : String) : Except Failure Instant := do
  (← Fields.read pattern text).dateTime

/-- The midnight of a text that gives a date by a pattern. -/
def readDate (pattern text : String) : Except Failure Instant := do
  Fields.at? (← (← Fields.read pattern text).date) ⟨0, 0⟩

/-- The instant of a text that gives date and time by a pattern, or else only a date. -/
def read (pattern text : String) : Except Failure Instant :=
  match readDateTime pattern text with
  | .ok i => .ok i
  | .error _ => readDate pattern text

def textPattern : String := "%Y-%m-%d %H:%M:%S"

def ofText? (text : String) : Option Instant := (readDateTime textPattern text).toOption

end Formulary.Instant

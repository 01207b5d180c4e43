import Formulary.Calendar.Scan
import Formulary.Number.Decimal
import Formulary.Value.Basic

/-!
# Conversions and order of values

Every value converts to every kind; what has no sensible counterpart gives a fixed default.

* `Value.toInteger`, `Value.toLong`, `Value.toDouble`, `Value.toBoolean`, `Value.toBytes`.
* `Value.toText`: how a value is shown.
* `Value.toDate`: numbers are milliseconds since the epoch.
* `Value.compare`: the order of two values, if they can be compared.
-/

namespace Formulary.Value

def bufferText : String := "[BUFFER DATA]"

/-- A long keeps its low 32 bits, a double is clamped, and a text out of range counts for
nothing. -/
def toInteger (v : Value) : Int32 :=
  match v.payload with
  | .integer n => n
  | .long n => n.toInt32
  | .double x => Int32.ofInt (Binary64.toIntWithin (-2147483648) 2147483647 x)
  | .string s => Int32.ofInt ((Numeral.integerIn? (-2147483648) 2147483647 s).getD 0)
  | .date _ => 0
  | .boolean b => if b then 1 else 0
  | .buffer bytes => Int32.ofNat bytes.size

/-- A double is clamped, a date gives its milliseconds, and a text out of range counts for
nothing. -/
def toLong (v : Value) : Int64 :=
  match v.payload with
  | .integer n => n.toInt64
  | .long n => n
  | .double x => Int64.ofInt (Binary64.toIntWithin (-9223372036854775808) 9223372036854775807 x)
  | .string s =>
    Int64.ofInt ((Numeral.integerIn? (-9223372036854775808) 9223372036854775807 s).getD 0)
  | .date t => Int64.ofInt t.toMillis
  | .boolean b => if b then 1 else 0
  | .buffer bytes => Int64.ofNat bytes.size

/-- A date is no number here, and counts for nothing like a text that is none. -/
def toDouble (v : Value) : Float :=
  match v.payload with
  | .integer n => Binary64.ofInt n.toInt
  | .long n => Binary64.ofInt n.toInt
  | .double x => x
  | .string s => (Binary64.read? s).getD (Binary64.ofInt 0)
  | .date _ => Binary64.ofInt 0
  | .boolean b => Binary64.ofInt (if b then 1 else 0)
  | .buffer bytes => Binary64.ofInt bytes.size

/-- How a value is shown; a null value is shown by its word, whatever it holds. -/
def toText (v : Value) : String :=
  if v.isNull then "null"
  else match v.payload with
    | .integer n => toString n.toInt
    | .long n => toString n.toInt
    | .double x => Shortest.text x
    | .string s => s
    | .date t => t.text
    | .boolean b => if b then "true" else "false"
    | .buffer _ => bufferText

/-- Numbers are true unless they are zero, a text if it is the word. -/
def toBoolean (v : Value) : Bool :=
  match v.payload with
  | .integer n => n ≠ 0
  | .long n => n ≠ 0
  | .double x => Binary64.order x (Binary64.ofInt 0) ≠ some .eq
  | .string s => s == "true"
  | .date _ => true
  | .boolean b => b
  | .buffer bytes => bytes.size ≠ 0

/-- The instant of a value: a number of milliseconds, a text like `Instant.text`, or a date.  All
else is the present instant `now`. -/
def toDate (now : Instant) (v : Value) : Instant :=
  match v.payload with
  | .integer n => (Instant.ofMillis? n.toInt).getD now
  | .long n => (Instant.ofMillis? n.toInt).getD now
  | .double _ => (Instant.ofMillis? v.toLong.toInt).getD now
  | .string s => (Instant.ofText? s).getD now
  | .date t => t
  | .boolean _ | .buffer _ => now

/-- A text in UTF-8, or bytes; all else is a single zero. -/
def toBytes (v : Value) : ByteArray :=
  match v.payload with
  | .string s => s.toUTF8
  | .buffer bytes => bytes
  | _ => ⟨#[0]⟩

/-! ## Order -/

/-- The order of two values, if they can be compared.  If either is a text, both are compared as
texts, by code points.  Whole numbers, booleans and dates are compared exactly as whole numbers, and
anything else as doubles; with NaN nothing compares. -/
def compare (v w : Value) : Option Ordering :=
  if v.isString || w.isString then some (Ord.compare v.toText w.toText)
  else if v.kind.isIntegral && w.kind.isIntegral then
    some (Ord.compare v.toLong.toInt w.toLong.toInt)
  else Binary64.order v.toDouble w.toDouble

end Formulary.Value

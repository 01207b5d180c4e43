import Formulary.Number.Binary64

/-!
# Decimal digits

Whole numbers are read from their digits.  A `Float` is written with the fewest digits that read
back to it; of several such decimals the nearest, and the larger of two equally near.  Digits are
never replaced by an exponent.

* `Numeral.value?`: the number that a row of digits denotes; an empty row denotes none.
* `Numeral.integer?`: the same with an optional sign in front.
* `Numeral.integerIn?`: the same within bounds.
* `Shortest.multiple?`: the multiple of a power of ten that reads back, if one does.
* `Shortest.decimal`: the shortest decimal.
* `Shortest.text`: its text, with a point in every finite number.
-/

namespace Formulary

namespace Numeral

def value? (cs : List Char) : Option Nat :=
  if cs ≠ [] ∧ cs.all Char.isDigit then some (Nat.ofDigitChars 10 cs 0) else none

def integer? : List Char → Option Int
  | '+' :: cs => (value? cs).map Int.ofNat
  | '-' :: cs => (value? cs).map fun n => -(n : Int)
  | cs => (value? cs).map Int.ofNat

def integerIn? (lowest highest : Int) (s : String) : Option Int :=
  (integer? s.toList).filter fun n => lowest ≤ n && n ≤ highest

end Numeral

namespace Shortest

structure Decimal where
  digits : Nat
  exponent : Int
  deriving DecidableEq, Repr

/-- Whether `n * 10 ^ k` is less than `t * 2 ^ e`, or equal to it where `closed`. -/
def below (closed : Bool) (n : Nat) (k : Int) (t : Nat) (e : Int) : Bool :=
  let left := n * Power.num 10 k * Power.den 2 e
  let right := t * Power.num 2 e * Power.den 10 k
  left < right || (closed && left = right)

def above (closed : Bool) (n : Nat) (k : Int) (t : Nat) (e : Int) : Bool :=
  !below (!closed) n k t e

/-- Whether `n * 10 ^ k` rounds to `m * 2 ^ e`: it lies between the midpoints to the neighbours,
and on a midpoint only where `m` is even.  In units of a quarter the value is `4 * m`. -/
def readsBack (m : Nat) (e : Int) (n : Nat) (k : Int) : Bool :=
  let even := m % 2 = 0
  let gap := if m = Binary64.hiddenBit ∧ e > Binary64.lowestExponent then 1 else 2
  above even n k (4 * m - gap) (e - 2) && below even n k (4 * m + 2) (e - 2)

/-- The multiple of `10 ^ k` at or below `m * 2 ^ e`. -/
def floorMultiple (m : Nat) (e k : Int) : Nat :=
  m * Power.num 2 e * Power.den 10 k / (Power.num 10 k * Power.den 2 e)

/-- The multiple of `10 ^ k` nearest to `m * 2 ^ e` among its two neighbours that read back. -/
def multiple? (m : Nat) (e k : Int) : Option Nat :=
  let n := floorMultiple m e k
  match readsBack m e n k, readsBack m e (n + 1) k with
  | true, true => some (if below true (2 * n + 1) k (2 * m) e then n + 1 else n)
  | true, false => some n
  | false, true => some (n + 1)
  | false, false => none

/-- The exponent of the leading decimal digit of `m * 2 ^ e`. -/
def leadingExponent (m : Nat) (e : Int) : Int :=
  let num := m * Power.num 2 e
  let den := Power.den 2 e
  let guess : Int := (Nat.toDigits 10 num).length - (Nat.toDigits 10 den).length
  if den * Power.num 10 guess ≤ num * Power.den 10 guess then guess else guess - 1

/-- The same number with one digit less, if its last digit is a zero. -/
def Decimal.trim (d : Decimal) : Decimal :=
  if d.digits % 10 = 0 then ⟨d.digits / 10, d.exponent + 1⟩ else d

/-- The shortest decimal that reads back to `m * 2 ^ e`, where `m` is positive.  Seventeen digits
are always enough, and only a nine that was rounded up to ten leaves a zero at the end. -/
def decimal (m : Nat) (e : Int) : Decimal :=
  let lead := leadingExponent m e
  (((List.range 17).findSome? fun (i : Nat) =>
    (multiple? m e (lead - i)).map (Decimal.mk · (lead - i))).getD ⟨m, e⟩).trim

/-- A decimal in digits alone; a whole number gets `.0`. -/
def Decimal.characters (d : Decimal) : List Char :=
  let digits := Nat.toDigits 10 d.digits
  if 0 ≤ d.exponent then digits ++ List.replicate d.exponent.toNat '0' ++ ['.', '0']
  else
    let places := (-d.exponent).toNat
    let padded := List.replicate (places + 1 - digits.length) '0' ++ digits
    padded.take (padded.length - places) ++ '.' :: padded.drop (padded.length - places)

def text (x : Float) : String :=
  match Binary64.parts x with
  | .nan => "NaN"
  | .infinite negative => if negative then "-inf" else "inf"
  | .finite negative m e =>
    let body := if m = 0 then ['0', '.', '0'] else (decimal m e).characters
    String.ofList (if negative then '-' :: body else body)

end Shortest

end Formulary

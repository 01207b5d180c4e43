/-!
# Floating-point numbers, exactly

A finite `Float` is a whole number times a power of two.  This module takes one apart, cuts it off
to a whole number, and rounds a fraction to the nearest `Float`, all in whole numbers.

* `Power.num`, `Power.den`: a power with a whole exponent, positive or negative, as a fraction.
* `Binary64.parts`: sign, significand and exponent.
* `Binary64.toIntWithin`: the whole part, clamped to bounds.
* `Binary64.order`: the order of two numbers.
* `Binary64.nearest`: the `Float` nearest to a fraction, the even one of two.
* `Binary64.read?`: the `Float` that a text denotes.
-/

namespace Formulary

namespace Power

def num (base : Nat) (exponent : Int) : Nat := Nat.pow base exponent.toNat

def den (base : Nat) (exponent : Int) : Nat := Nat.pow base (-exponent).toNat

end Power

namespace Binary64

/-- What a `Float` is.  A finite one is `significand * 2 ^ exponent`, negated if `negative`. -/
inductive Parts where
  | nan
  | infinite (negative : Bool)
  | finite (negative : Bool) (significand : Nat) (exponent : Int)
  deriving DecidableEq, Repr

/-- The exponent of the smallest positive `Float`. -/
def lowestExponent : Int := -1074

/-- The smallest significand of a normal `Float`. -/
def hiddenBit : Nat := 4503599627370496

/-- The biased exponent of infinities and NaN. -/
def specialExponent : Nat := 2047

def exponentCount : Nat := 2048

def signBit : Nat := 9223372036854775808

def parts (x : Float) : Parts :=
  let bits := x.toBits.toNat
  let negative := bits / signBit == 1
  let biased := bits / hiddenBit % exponentCount
  let fraction := bits % hiddenBit
  if biased = specialExponent then
    if fraction = 0 then .infinite negative else .nan
  else if biased = 0 then .finite negative fraction lowestExponent
  else .finite negative (hiddenBit + fraction) (lowestExponent + (biased - 1 : Nat))

def wholePart (significand : Nat) (exponent : Int) : Nat :=
  significand * Power.num 2 exponent / Power.den 2 exponent

/-- Cuts off towards zero and clamps to the bounds; NaN gives zero. -/
def Parts.toIntWithin (lowest highest : Int) : Parts → Int
  | .nan => 0
  | .infinite negative => if negative then lowest else highest
  | .finite negative significand exponent =>
    let n : Int := wholePart significand exponent
    max lowest (min highest (if negative then -n else n))

def toIntWithin (lowest highest : Int) (x : Float) : Int := (parts x).toIntWithin lowest highest

/-! ## Order -/

/-- The rank of a `Float` among all of them, where both zeros have rank zero; NaN has none.  Without
the sign, a larger number has larger bits. -/
def rank? (x : Float) : Option Int :=
  match parts x with
  | .nan => none
  | .infinite negative | .finite negative _ _ =>
    let size : Int := (x.toBits.toNat % signBit : Nat)
    some (if negative then -size else size)

/-- The order of two numbers; NaN is not comparable, not even to itself. -/
def order (x y : Float) : Option Ordering :=
  match rank? x, rank? y with
  | some a, some b => some (compare a b)
  | _, _ => none

/-! ## Rounding -/

/-- The largest power of two that is at most `num / den`. -/
def magnitude (num den : Nat) : Int :=
  let guess : Int := (num.log2 : Int) - den.log2
  if den * Power.num 2 guess ≤ num * Power.den 2 guess then guess else guess - 1

/-- The whole number nearest to `num / den`, the even one of two. -/
def roundToEven (num den : Nat) : Nat :=
  let q := num / den
  let twice := 2 * (num % den)
  if twice > den ∨ (twice = den ∧ q % 2 = 1) then q + 1 else q

/-- The bits of the non-negative `Float` nearest to `num / den`.  Below the normal range the
exponent stops at the lowest one; above it the result is infinite. -/
def nearestBits (num den : Nat) : Nat :=
  if num = 0 then 0
  else
    let exponent := max lowestExponent (magnitude num den - 52)
    let significand := roundToEven (num * Power.den 2 exponent) (den * Power.num 2 exponent)
    min (specialExponent * hiddenBit)
      ((exponent - lowestExponent).toNat * hiddenBit + significand)

/-- The `Float` with the given sign and other bits. -/
def signed (negative : Bool) (bits : Nat) : Float :=
  Float.ofBits (UInt64.ofNat (if negative then signBit + bits else bits))

def nearest (negative : Bool) (num den : Nat) : Float := signed negative (nearestBits num den)

def infinity (negative : Bool) : Float := signed negative (specialExponent * hiddenBit)

def nan : Float := signed false (specialExponent * hiddenBit + hiddenBit / 2)

def ofInt (n : Int) : Float := nearest (n < 0) n.natAbs 1

/-! ## Reading -/

/-- The `Float` nearest to `value * 10 ^ exponent`, where `value` has `digits` digits.  Far out of
range no power of ten need be computed. -/
def nearestDecimal (negative : Bool) (value digits : Nat) (exponent : Int) : Float :=
  if value = 0 ∨ digits + exponent < -400 then signed negative 0
  else if digits + exponent > 400 then infinity negative
  else nearest negative (value * Power.num 10 exponent) (Power.den 10 exponent)

/-- The exponent after a numeral: none at all, or `e`, an optional sign and digits. -/
def exponent? : List Char → Option Int
  | [] => some 0
  | c :: cs =>
    if c = 'e' ∨ c = 'E' then
      let (negative, digits) := match cs with
        | '-' :: ds => (true, ds)
        | '+' :: ds => (false, ds)
        | ds => (false, ds)
      if digits ≠ [] ∧ digits.all Char.isDigit then
        let n : Int := Nat.ofDigitChars 10 digits 0
        some (if negative then -n else n)
      else none
    else none

/-- The digits after a point, and what follows them. -/
def fraction : List Char → List Char × List Char
  | '.' :: cs => cs.span Char.isDigit
  | cs => ([], cs)

/-- A numeral without sign: digits with at most one point among or around them, and an optional
exponent. -/
def unsigned? (negative : Bool) (cs : List Char) : Option Float :=
  let (whole, rest) := cs.span Char.isDigit
  let (decimals, rest) := fraction rest
  if whole = [] ∧ decimals = [] then none
  else
    let digits := (whole ++ decimals).dropWhile (· = '0')
    (exponent? rest).map fun e =>
      nearestDecimal negative (Nat.ofDigitChars 10 digits 0) digits.length (e - decimals.length)

/-- The words for the values that have no numeral, in any case. -/
def special? (negative : Bool) (cs : List Char) : Option Float :=
  let word := cs.map Char.toLower
  if word = ['n', 'a', 'n'] then some nan
  else if word = ['i', 'n', 'f'] ∨ word = ['i', 'n', 'f', 'i', 'n', 'i', 't', 'y'] then
    some (infinity negative)
  else none

def read? (s : String) : Option Float :=
  let (negative, cs) := match s.toList with
    | '-' :: cs => (true, cs)
    | '+' :: cs => (false, cs)
    | cs => (false, cs)
  (unsigned? negative cs).or (special? negative cs)

end Binary64

end Formulary

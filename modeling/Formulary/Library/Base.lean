import Formulary.Library.Table

/-!
# The libraries that every calculator can have

The system library has constants, comparison, logic, the clock, the console and the reading of
dates.  The library of numbers has arithmetic on doubles, where `+` joins texts if either side is
one.

* `Console`: what the system library needs of the world.
* `BaseLibrary.members`, `ArithmeticLibrary.members`.
-/

namespace Formulary

inductive Channel where
  | output
  | error
  deriving DecidableEq, Repr

class Console (m : Type → Type) where
  printLine : Channel → String → m Unit
  now : m Instant

namespace BaseLibrary

variable {m : Type → Type} [Monad m]

def comparison (symbol : String) (test : Option Ordering → Bool) : Member m :=
  .operator symbol .any .any <| .binary fun x y => pure (.boolean (test (x.compare y)))

def connective (symbol : String) (f : Bool → Bool → Bool) : Member m :=
  .operator symbol .boolean .boolean <|
    .binary fun x y => pure (.boolean (f x.toBoolean y.toBoolean))

/-- A method that prints its argument on a line and passes it on. -/
def printer [Console m] (name : String) (channel : Channel) : Member m :=
  .method name ⟨[.any], none⟩ <| .unary fun x => do
    ExceptT.lift (Console.printLine channel x.toText)
    pure x

def toDate (text pattern : Value) : Except LibraryError Value :=
  match Instant.read pattern.toText text.toText with
  | .ok t => .ok (.date t)
  | .error failure => .error (.notDate text.toText pattern.toText failure)

def isLess (o : Option Ordering) : Bool := o == some .lt

def isEqual (o : Option Ordering) : Bool := o == some .eq

def isGreater (o : Option Ordering) : Bool := o == some .gt

def members [Console m] : List (Member m) :=
  [.constant "true" (.boolean true),
    .constant "false" (.boolean false),
    .constant "null" .null,
    .producer "sysdate" (do pure (.date (← ExceptT.lift Console.now))),
    comparison "==" isEqual,
    comparison "!=" fun o => !isEqual o,
    comparison ">" isGreater,
    comparison "<" isLess,
    comparison ">=" fun o => isGreater o || isEqual o,
    comparison "<=" fun o => isLess o || isEqual o,
    connective "&&" and,
    connective "||" or,
    printer "sysout" .output,
    printer "syserr" .error,
    .method "not" ⟨[.boolean], none⟩ (.unary fun x => pure (.boolean (!x.toBoolean))),
    .method "toDate" ⟨[.string, .string], none⟩
      (.binary fun x y => ExceptT.mk (pure (toDate x y)))]

end BaseLibrary

namespace ArithmeticLibrary

variable {m : Type → Type} [Monad m]

/-- The sum of two numbers, or both texts one after the other. -/
def plus (x y : Value) : Value :=
  if x.isString || y.isString then .string (x.toText ++ y.toText)
  else .double (x.toDouble + y.toDouble)

def arithmetic (symbol : String) (f : Float → Float → Float) : Member m :=
  .operator symbol .double .double <| .binary fun x y => pure (.double (f x.toDouble y.toDouble))

def members : List (Member m) :=
  [.operator "+" .any .any (.binary fun x y => pure (plus x y)),
    arithmetic "-" (· - ·),
    arithmetic "*" (· * ·),
    arithmetic "/" (· / ·),
    .method "abs" ⟨[.double], none⟩ (.unary fun x => pure (.double x.toDouble.abs))]

end ArithmeticLibrary

end Formulary

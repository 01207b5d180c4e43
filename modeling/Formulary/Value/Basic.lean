import Formulary.Calendar.Instant
import Formulary.Number.Binary64

/-!
# Values

A value is one of seven kinds of payload, with a null flag and two names for messages: the variable
that it was read from, and the type that it was computed as.

* `Kind`, `Payload`, `Value`.
* `Value.same`: equality, in which NaN differs from itself.
-/

namespace Formulary

inductive Kind where
  | integer
  | long
  | double
  | string
  | date
  | boolean
  | buffer
  deriving DecidableEq, Repr

namespace Kind

/-- The name of the kind, which is also its type name. -/
def name : Kind → String
  | integer => "Integer"
  | long => "Long"
  | double => "Double"
  | string => "String"
  | date => "Date"
  | boolean => "Boolean"
  | buffer => "Buffer"

/-- The kinds that are compared as whole numbers. -/
def isIntegral : Kind → Bool
  | integer | long | boolean | date => true
  | double | string | buffer => false

end Kind

inductive Payload where
  | integer (v : Int32)
  | long (v : Int64)
  | double (v : Float)
  | string (v : String)
  | date (v : Instant)
  | boolean (v : Bool)
  | buffer (v : ByteArray)

namespace Payload

def kind : Payload → Kind
  | integer _ => .integer
  | long _ => .long
  | double _ => .double
  | string _ => .string
  | date _ => .date
  | boolean _ => .boolean
  | buffer _ => .buffer

/-- Equality of payloads of one kind; doubles are equal as numbers. -/
def same : Payload → Payload → Bool
  | integer x, integer y => x == y
  | long x, long y => x == y
  | double x, double y => Binary64.order x y == some .eq
  | string x, string y => x == y
  | date x, date y => x == y
  | boolean x, boolean y => x == y
  | buffer x, buffer y => x.data == y.data
  | _, _ => false

end Payload

/-- A value, with what messages tell of it. -/
structure Value where
  payload : Payload
  isNull : Bool
  name : Option String
  typeName : Option String

namespace Value

def of (payload : Payload) : Value := ⟨payload, false, none, none⟩

/-- The null value; what it holds is zero. -/
def null : Value := ⟨.integer 0, true, none, none⟩

instance : Inhabited Value := ⟨null⟩

/-! ## Values of each kind -/

def integer (v : Int32) : Value := of (.integer v)

def long (v : Int64) : Value := of (.long v)

def double (v : Float) : Value := of (.double v)

def string (v : String) : Value := of (.string v)

def date (v : Instant) : Value := of (.date v)

def boolean (v : Bool) : Value := of (.boolean v)

def buffer (v : ByteArray) : Value := of (.buffer v)

/-! ## What is told of a value -/

def kind (v : Value) : Kind := v.payload.kind

def isString (v : Value) : Bool := v.kind == .string

def named (v : Value) (name : String) : Value := { v with name := some name }

/-- The value with its kind for a type name, if it has none yet. -/
def typed (v : Value) : Value :=
  match v.typeName with
  | some _ => v
  | none => { v with typeName := some v.kind.name }

def same (v w : Value) : Bool :=
  v.payload.same w.payload && v.isNull == w.isNull && v.name == w.name && v.typeName == w.typeName

end Value

end Formulary

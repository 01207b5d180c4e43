import Formulary.Calendar.Fields
import Formulary.Value.Conversion

/-!
# Libraries

A library is a table of operators, methods and variables, filled by registering members one after
the other.  The first member that fits a use is taken.  A handler declares the kinds of its
arguments, which are converted before it is called.

A handler may act on the world around the evaluation; the actions live in a monad `m` of which
nothing is assumed here.

* `Signature`: fixed parameters, and perhaps one for all further arguments.
* `Arguments`: what a handler receives.
* `Member`, `Table.register`: the members and their registration.
* `Table.operate`, `Table.call`, `Table.read`: the use of a member; `none` where there is no member
  to use.
-/

namespace Formulary

/-! ## Parameters -/

/-- The declared kind of an argument; `any` takes it as it is. -/
inductive Parameter where
  | integer
  | long
  | double
  | string
  | boolean
  | any
  deriving DecidableEq, Repr

/-- An argument as its parameter wants it.  A converted argument has no names. -/
def Parameter.convert (p : Parameter) (v : Value) : Value :=
  match p with
  | integer => .integer v.toInteger
  | long => .long v.toLong
  | double => .double v.toDouble
  | string => .string v.toText
  | boolean => .boolean v.toBoolean
  | any => v

structure Signature where
  fixed : List Parameter
  rest : Option Parameter
  deriving DecidableEq, Repr

namespace Signature

def arity (s : Signature) : Nat := s.fixed.length

def fits (s : Signature) (count : Nat) : Bool :=
  match s.rest with
  | some _ => s.arity ≤ count
  | none => count = s.arity

def parameter (s : Signature) (i : Nat) : Parameter := s.fixed.getD i (s.rest.getD .any)

def convert (s : Signature) (arguments : List Value) : List Value :=
  arguments.zipIdx.map fun (v, i) => (s.parameter i).convert v

end Signature

/-- The converted arguments of a call, of which the first `fixed` belong to fixed parameters. -/
structure Arguments where
  values : List Value
  fixed : Nat

def Arguments.rest (a : Arguments) : List Value := a.values.drop a.fixed

/-! ## Members -/

inductive LibraryError where
  /-- A text is not a date of a pattern. -/
  | notDate (text pattern : String) (failure : Calendar.Failure)
  /-- Input or output went wrong. -/
  | io (text : String)
  /-- A failure in a handler's own words. -/
  | custom (text : String)
  /-- A handler was called without the argument at this place. -/
  | missingArgument (place : Nat)
  deriving DecidableEq, Repr

namespace LibraryError

def message : LibraryError → String
  | notDate text pattern _ =>
    "cannot parse `" ++ text ++ "` as a date with format `" ++ pattern ++ "`"
  | io text => text
  | custom text => text
  | missingArgument place => "argument " ++ toString place ++ " is missing"

def cause : LibraryError → Option String
  | notDate _ _ failure => some failure.message
  | _ => none

end LibraryError

abbrev Action (m : Type → Type) := ExceptT LibraryError m Value

abbrev Handler (m : Type → Type) := Arguments → Action m

/-- A member to register.  A producer acts anew whenever it is read; the defaults answer for names
that no other member has. -/
inductive Member (m : Type → Type) where
  | operator (symbol : String) (left right : Parameter) (handler : Handler m)
  | method (name : String) (signature : Signature) (handler : Handler m)
  | constant (name : String) (value : Value)
  | producer (name : String) (read : Action m)
  | otherMethods (call : String → List Value → Action m)
  | otherVariables (read : String → Action m)

structure Table.Operator (m : Type → Type) where
  symbol : String
  left : Parameter
  right : Parameter
  handler : Handler m

structure Table.Method (m : Type → Type) where
  name : String
  signature : Signature
  handler : Handler m

/-- Where a variable takes its value from. -/
inductive Table.Origin (m : Type → Type) where
  | constant (value : Value)
  | producer (read : Action m)

structure Table.Variable (m : Type → Type) where
  name : String
  origin : Table.Origin m

/-- The members of a library, in the order of their registration. -/
structure Table (m : Type → Type) where
  operators : List (Table.Operator m)
  methods : List (Table.Method m)
  vars : List (Table.Variable m)
  otherMethods : Option (String → List Value → Action m)
  otherVariables : Option (String → Action m)

namespace Table

variable {m : Type → Type}

def empty : Table m := ⟨[], [], [], none, none⟩

/-- Adds a member behind those of its sort; a default replaces the one before. -/
def register (t : Table m) : Member m → Table m
  | .operator symbol left right handler =>
    { t with operators := t.operators ++ [⟨symbol, left, right, handler⟩] }
  | .method name signature handler =>
    { t with methods := t.methods ++ [⟨name, signature, handler⟩] }
  | .constant name value => { t with vars := t.vars ++ [⟨name, .constant value⟩] }
  | .producer name read => { t with vars := t.vars ++ [⟨name, .producer read⟩] }
  | .otherMethods call => { t with otherMethods := some call }
  | .otherVariables read => { t with otherVariables := some read }

def registerAll (t : Table m) (members : List (Member m)) : Table m := members.foldl register t

def ofMembers (members : List (Member m)) : Table m := empty.registerAll members

/-! ## Use -/

def operatorNamed? (t : Table m) (symbol : String) : Option (Operator m) :=
  t.operators.find? fun e => e.symbol == symbol

/-- The method of a name that takes so many arguments. -/
def methodNamed? (t : Table m) (name : String) (count : Nat) : Option (Method m) :=
  t.methods.find? fun e => e.name == name && e.signature.fits count

def variableNamed? (t : Table m) (name : String) : Option (Variable m) :=
  t.vars.find? fun e => e.name == name

/-- Calls an operator on both sides, each converted to its parameter. -/
def operate (t : Table m) (symbol : String) (left right : Value) : Option (Action m) :=
  (t.operatorNamed? symbol).map fun e =>
    e.handler ⟨[e.left.convert left, e.right.convert right], 2⟩

/-- Calls a method on its arguments, or else the default on the name and the arguments as they
are. -/
def call (t : Table m) (name : String) (arguments : List Value) : Option (Action m) :=
  match t.methodNamed? name arguments.length with
  | some e => some (e.handler ⟨e.signature.convert arguments, e.signature.arity⟩)
  | none => t.otherMethods.map fun other => other name arguments

variable [Monad m]

/-- Reads a variable, or else the default for its name. -/
def read (t : Table m) (name : String) : Option (Action m) :=
  match t.variableNamed? name with
  | some ⟨_, .constant value⟩ => some (pure value)
  | some ⟨_, .producer read⟩ => some read
  | none => t.otherVariables.map fun other => other name

end Table

/-! ## Handlers of known arity -/

namespace Handler

variable {m : Type → Type} [Monad m]

def argument (a : Arguments) (place : Nat) : Action m :=
  match a.values[place]? with
  | some v => pure v
  | none => throw (.missingArgument place)

def unary (f : Value → Action m) : Handler m := fun a => do f (← argument a 0)

def binary (f : Value → Value → Action m) : Handler m := fun a => do
  let x ← argument a 0
  let y ← argument a 1
  f x y

end Handler

end Formulary

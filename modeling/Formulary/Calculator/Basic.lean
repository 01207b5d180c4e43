import Formulary.Calculator.Error
import Formulary.Calculator.Postfix
import Formulary.Library.Base

/-!
# Calculators

A calculator evaluates the expressions of a tree.  It knows libraries by name, and for each operator
its priority and the library that it belongs to.

* `Calculator`: libraries, operators and the limit on nested arguments.
* `Calculator.postfixOrder`: the elements of an expression in the order of their evaluation.
* `Calculator.valueOf`, `Calculator.valueAt`: the value of an expression.
-/

namespace Formulary

structure KnownOperator where
  priority : Int
  library : String
  deriving DecidableEq, Repr

/-- Libraries and operators by name, those registered last in front. -/
structure Calculator (m : Type → Type) where
  libraries : List (String × Table m)
  operators : List (String × KnownOperator)
  depthLimit : Nat

namespace Calculator

variable {m : Type → Type}

/-- The library of names without a dot and of operators that are not registered. -/
def defaultLibrary : String := "system"

def standardDepthLimit : Nat := 128

def unboundPriority : Int := -1

/-! ## Registration -/

def empty : Calculator m := ⟨[], [], standardDepthLimit⟩

/-- Puts a library under a name, in place of any before it. -/
def install (c : Calculator m) (name : String) (library : Table m) : Calculator m :=
  { c with libraries := (name, library) :: c.libraries }

def bindOperator (c : Calculator m) (symbol library : String) (priority : Int) :
    Calculator m :=
  { c with operators := (symbol, ⟨priority, library⟩) :: c.operators }

def limitDepth (c : Calculator m) (limit : Nat) : Calculator m :=
  { c with depthLimit := limit }

/-- The library under a name; of several the one added last. -/
def library? (c : Calculator m) (name : String) : Option (Table m) :=
  c.libraries.lookup name

/-- What is known of an operator; of several registrations the last. -/
def operator? (c : Calculator m) (symbol : String) : Option KnownOperator :=
  c.operators.lookup symbol

def knowsLibrary (c : Calculator m) (name : String) : Bool := (c.library? name).isSome

/-- The priority of an operator; higher ones bind tighter. -/
def priority (c : Calculator m) (symbol : String) : Int :=
  ((c.operator? symbol).map KnownOperator.priority).getD unboundPriority

def operatorLibrary (c : Calculator m) (symbol : String) : String :=
  ((c.operator? symbol).map KnownOperator.library).getD defaultLibrary

def standardOperators : List (String × KnownOperator) :=
  [("==", ⟨1, "system"⟩), ("!=", ⟨1, "system"⟩), ("||", ⟨2, "system"⟩), ("&&", ⟨3, "system"⟩),
    (">", ⟨4, "system"⟩), ("<", ⟨4, "system"⟩), (">=", ⟨4, "system"⟩), ("<=", ⟨4, "system"⟩),
    ("+", ⟨5, "math"⟩), ("-", ⟨5, "math"⟩), ("*", ⟨6, "math"⟩), ("/", ⟨6, "math"⟩)]

def standard [Monad m] [Console m] : Calculator m where
  libraries := [("math", Table.ofMembers ArithmeticLibrary.members),
    ("system", Table.ofMembers BaseLibrary.members)]
  operators := standardOperators
  depthLimit := standardDepthLimit

/-! ## Order of evaluation -/

/-- What an element is in a row; an argument wrapper is nothing. -/
def token? (c : Calculator m) (tree : Tree) (id : ElementId) : Option (Token ElementId) :=
  let e := tree.element id
  match e.kind with
  | .operator => some (.operator id (c.priority e.text))
  | .symbol =>
    if e.text = "(" then some .openParen
    else if e.text = ")" then some .closeParen
    else none
  | .argument => none
  | .number | .string | .identifier | .function | .node => some (.operand id)

def row (c : Calculator m) (tree : Tree) (id : ElementId) : List (Token ElementId) :=
  (tree.element id).children.toList.filterMap (c.token? tree)

def postfixOrder (c : Calculator m) (tree : Tree) (id : ElementId) : List ElementId :=
  Postfix.order (c.row tree id)

/-! ## Evaluation -/

abbrev Evaluation (m : Type → Type) (α : Type) := ExceptT EvalError m α

/-- Cuts a qualified name at its first dot; a name without one belongs to the default library. -/
def splitName (text : String) : String × String :=
  match text.toList.span (· ≠ '.') with
  | (library, _ :: name) => (String.ofList library, String.ofList name)
  | (_, []) => (defaultLibrary, text)

variable [Monad m]

def theLibrary (c : Calculator m) (name : String) : Evaluation m (Table m) :=
  match c.library? name with
  | some table => pure table
  | none => throw (.unknownLibrary name)

def invoke (library : String) (kind : MemberSort) (name : String) (action : Option (Action m)) :
    Evaluation m Value :=
  match action with
  | some action => action.adapt (EvalError.memberFailed library kind name)
  | none => throw (.noMember library kind name)

/-- Wraps the errors of an element in a layer. -/
def layered {α : Type} (tree : Tree) (id : ElementId) (run : Evaluation m α) : Evaluation m α :=
  let e := tree.element id
  run.adapt (.element e.kind e.text e.position (e.position.span tree.source) none ·)

def readVariable (c : Calculator m) (text : String) : Evaluation m Value := do
  let (library, name) := splitName text
  let table ← c.theLibrary library
  let v ← invoke library .var name (table.read name)
  return v.named (library ++ "." ++ name)

def applyOperator (c : Calculator m) (symbol : String) (left right : Value) :
    Evaluation m Value := do
  let library := c.operatorLibrary symbol
  let table ← c.theLibrary library
  invoke library .operator symbol (table.operate symbol left right)

def callMethod (c : Calculator m) (text : String) (arguments : List Value) :
    Evaluation m Value := do
  let (library, name) := splitName text
  let table ← c.theLibrary library
  invoke library .method name (table.call name arguments)

def numberValue (text : String) : Value := .double (Value.string text).toDouble

/-- The arguments of a call: its wrappers with something in them. -/
def arguments (tree : Tree) (id : ElementId) : List ElementId :=
  (tree.element id).children.toList.filter fun a => !(tree.element a).children.isEmpty

/-- Evaluates one element on a stack of values, the last one in front; `inside` evaluates the row
under an element. -/
def step (c : Calculator m) (tree : Tree) (inside : ElementId → Evaluation m Value)
    (id : ElementId) (stack : List Value) : Evaluation m (List Value) := do
  let e := tree.element id
  match e.kind with
  | .number => return (numberValue e.text).typed :: stack
  | .string => return (Value.string e.text).typed :: stack
  | .identifier => return (← c.readVariable e.text).typed :: stack
  | .operator =>
    match stack with
    | right :: left :: stack => return (← c.applyOperator e.text left right).typed :: stack
    | _ => throw (.unbalanced 0)
  | .function =>
    let values ← (arguments tree id).mapM inside
    return (← c.callMethod e.text values).typed :: stack
  | .node => return (← inside id).typed :: stack
  | .symbol | .argument => throw (.unbalanced stack.length)

/-- Evaluates elements in order; one value must be left. -/
def run (c : Calculator m) (tree : Tree) (inside : ElementId → Evaluation m Value) :
    List ElementId → List Value → Evaluation m Value
  | [], [v] => pure v
  | [], stack => throw (.unbalanced stack.length)
  | id :: ids, stack => do
    let stack ← layered tree id (c.step tree inside id stack)
    c.run tree inside ids stack

/-- The value of the row under an element, where arguments may be nested `room - 1` levels deep. -/
def evaluate (c : Calculator m) (tree : Tree) : Nat → ElementId → Evaluation m Value
  | 0, _ => throw (.tooDeep c.depthLimit)
  | room + 1, id => c.run tree (c.evaluate tree room) (c.postfixOrder tree id) []

def valueOf (c : Calculator m) (tree : Tree) (id : EntityId) : Evaluation m Value :=
  let e := tree.entity id
  match e.content with
  | .expression root _ =>
    (c.evaluate tree (c.depthLimit + 1) root).adapt (EvalError.withSource tree.namedText)
  | _ => throw (.noExpression (e.name.getD ""))

def valueAt (c : Calculator m) (tree : Tree) (path : String) : Evaluation m Value :=
  match tree.find? path with
  | some id => c.valueOf tree id
  | none => throw (.nothingAt path)

end Calculator

end Formulary

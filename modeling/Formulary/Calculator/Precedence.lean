import Formulary.Calculator.Basic

/-!
# Operations by precedence

A row of operands, operators and parentheses stands for a tree of operations: its root is the last
operator of least priority outside all parentheses, with the trees of what stands on either side.

* `Operation`, `Operation.postorder`: trees of operations.
* `Operation.ofRow?`: the tree of a row.
* `Calculator.evaluateTree`: evaluation along the tree.
-/

namespace Formulary

inductive Operation (α : Type) where
  | operand (a : α)
  | apply (a : α) (left right : Operation α)
  deriving DecidableEq, Repr

namespace Operation

variable {α : Type}

/-- Operands and operators, each operator after both its sides. -/
def postorder : Operation α → List α
  | operand a => [a]
  | apply a left right => left.postorder ++ right.postorder ++ [a]

/-! ## The weakest operator -/

/-- An operator of a row, with what stands on its left and on its right. -/
structure Cut (α : Type) where
  left : List (Token α)
  operator : α
  priority : Int
  right : List (Token α)

/-- The operators of a row outside all parentheses, from left to right, after `depth` open
parentheses and the tokens `before`. -/
def cuts (depth : Nat) (before : List (Token α)) : List (Token α) → List (Cut α)
  | [] => []
  | t :: rest =>
    match t with
    | .operator a p =>
      let later := cuts depth (before ++ [t]) rest
      if depth = 0 then ⟨before, a, p, rest⟩ :: later else later
    | .openParen => cuts (depth + 1) (before ++ [t]) rest
    | .closeParen => cuts (depth - 1) (before ++ [t]) rest
    | .operand _ => cuts depth (before ++ [t]) rest

/-- Of two operators the one that binds weaker, and of equals the later one. -/
def weaker (first later : Cut α) : Cut α :=
  if later.priority ≤ first.priority then later else first

def weakest : List (Cut α) → Option (Cut α)
  | [] => none
  | c :: cs => some (cs.foldl weaker c)

/-! ## The tree of a row -/

/-- The tree of a row, with at most so many steps of splitting and opening parentheses. -/
def ofRowWithin : Nat → List (Token α) → Option (Operation α)
  | 0, _ => none
  | steps + 1, row =>
    match weakest (cuts 0 [] row), row with
    | some cut, _ => do
      let left ← ofRowWithin steps cut.left
      let right ← ofRowWithin steps cut.right
      return apply cut.operator left right
    | none, [.operand a] => some (operand a)
    | none, .openParen :: rest =>
      match rest.getLast? with
      | some .closeParen => ofRowWithin steps rest.dropLast
      | _ => none
    | none, _ => none

/-- The tree of a row; every step leaves a shorter row. -/
def ofRow? (row : List (Token α)) : Option (Operation α) := ofRowWithin row.length row

end Operation

/-! ## Evaluation along the tree -/

namespace Calculator

variable {m : Type → Type} [Monad m]

def operandValue (c : Calculator m) (tree : Tree) (inside : ElementId → Evaluation m Value)
    (id : ElementId) : Evaluation m Value :=
  let e := tree.element id
  match e.kind with
  | .number => pure (numberValue e.text)
  | .string => pure (.string e.text)
  | .identifier => c.readVariable e.text
  | .function => do c.callMethod e.text (← (arguments tree id).mapM inside)
  | .node => inside id
  | .operator | .symbol | .argument => throw (.unbalanced 0)

/-- The value of a tree of operations: the left side first, then the right side, then the operator
between them. -/
def operationValue (c : Calculator m) (tree : Tree) (inside : ElementId → Evaluation m Value) :
    Operation ElementId → Evaluation m Value
  | .operand id => Value.typed <$> layered tree id (c.operandValue tree inside id)
  | .apply id left right => do
    let x ← c.operationValue tree inside left
    let y ← c.operationValue tree inside right
    Value.typed <$> layered tree id (c.applyOperator (tree.element id).text x y)

/-- The value of the row under an element, where arguments may be nested `room - 1` levels deep. -/
def evaluateTree (c : Calculator m) (tree : Tree) : Nat → ElementId → Evaluation m Value
  | 0, _ => throw (.tooDeep c.depthLimit)
  | room + 1, id =>
    match Operation.ofRow? (c.row tree id) with
    | some operation => c.operationValue tree (c.evaluateTree tree room) operation
    | none => throw (.unbalanced 0)

end Calculator

end Formulary

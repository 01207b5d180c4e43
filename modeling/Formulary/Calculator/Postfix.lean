/-!
# Postfix order

A row of operands, operators and parentheses is reordered so that every operator follows its
operands.  Operators of higher priority bind tighter, those of equal priority from the left, and
parentheses are gone.

* `Token`: what a row is made of.
* `Postfix.order`: the operands and operators in postfix order.
-/

namespace Formulary

/-- A part of a row, where `α` names operands and operators. -/
inductive Token (α : Type) where
  | operand (a : α)
  | operator (a : α) (priority : Int)
  | openParen
  | closeParen
  deriving DecidableEq, Repr

/-- What waits for its second operand or for its closing parenthesis. -/
inductive Waiting (α : Type) where
  | operator (a : α) (priority : Int)
  | openParen
  deriving DecidableEq, Repr

/-- A row that has been read in part: what has been put in order, and what waits, innermost
first. -/
structure Postfix (α : Type) where
  ordered : Array α
  waiting : List (Waiting α)

namespace Postfix

variable {α : Type}

/-- Puts the waiting operators in order that bind at least as tight as a priority, up to the
innermost open parenthesis. -/
def settle (priority : Int) : Array α → List (Waiting α) → Postfix α
  | out, .operator a p :: rest =>
    if priority ≤ p then settle priority (out.push a) rest else ⟨out, .operator a p :: rest⟩
  | out, waiting => ⟨out, waiting⟩

/-- Puts all waiting operators in order up to the innermost open parenthesis, which is closed. -/
def close : Array α → List (Waiting α) → Postfix α
  | out, .operator a _ :: rest => close (out.push a) rest
  | out, .openParen :: rest => ⟨out, rest⟩
  | out, [] => ⟨out, []⟩

def drain : Array α → List (Waiting α) → Array α
  | out, .operator a _ :: rest => drain (out.push a) rest
  | out, .openParen :: rest => drain out rest
  | out, [] => out

def next (s : Postfix α) : Token α → Postfix α
  | .operand a => { s with ordered := s.ordered.push a }
  | .operator a p =>
    let settled := settle p s.ordered s.waiting
    { settled with waiting := .operator a p :: settled.waiting }
  | .openParen => { s with waiting := .openParen :: s.waiting }
  | .closeParen => close s.ordered s.waiting

def order (row : List (Token α)) : List α :=
  let s := row.foldl next ⟨#[], []⟩
  (drain s.ordered s.waiting).toList

end Postfix

end Formulary

import Mathlib.Data.List.Basic
import Formulary.Calculator.Precedence

/-!
# Phrases

A phrase is a row of operands and phrases in parentheses, with operators between them.  Reading it
from the left builds its tree of operations: what is open is the right edge of the tree, and a new
operator closes the part of the edge that binds at least as tight.

* `Atom`, `Phrase`, with `Phrase.tokens`.
* `Spine`, `Spine.settle`: the right edge of a tree, and what a new operator leaves of it.
* `Phrase.spine`, `Phrase.operation`: the tree of a phrase.
* `Phrase.postorder_perm`, `Phrase.operation_all`: it has each operand and each operator once, and
  no others.
-/

namespace Formulary

mutual

/-- An operand, or a phrase in parentheses. -/
inductive Atom (α : Type) where
  | operand (a : α)
  | paren (inside : Phrase α)

/-- Atoms with operators between them. -/
inductive Phrase (α : Type) where
  | atom (t : Atom α)
  | operate (left : Phrase α) (a : α) (priority : Int) (right : Atom α)

end

variable {α : Type}

@[elab_as_elim]
theorem Phrase.induction {motive : Phrase α → Prop} (atom : ∀ t, motive (.atom t))
    (operate : ∀ left a p right, motive left → motive (.operate left a p right)) :
    ∀ f, motive f
  | .atom t => atom t
  | .operate left a p right => operate left a p right (Phrase.induction atom operate left)

mutual

def Atom.tokens : Atom α → List (Token α)
  | .operand a => [.operand a]
  | .paren inside => .openParen :: (inside.tokens ++ [.closeParen])

def Phrase.tokens : Phrase α → List (Token α)
  | .atom t => t.tokens
  | .operate left a p right => left.tokens ++ .operator a p :: right.tokens

end

mutual

def Atom.names : Atom α → List α
  | .operand a => [a]
  | .paren inside => inside.names

def Phrase.names : Phrase α → List α
  | .atom t => t.names
  | .operate left a _ right => left.names ++ a :: right.names

end

/-! ## The right edge of a tree -/

/-- An operator that waits for its right side, with its left side. -/
structure Half (α : Type) where
  operator : α
  priority : Int
  left : Operation α

/-- The operators on the right edge of a tree, the innermost first, and what is at the end of
it. -/
structure Spine (α : Type) where
  halves : List (Half α)
  last : Operation α

namespace Spine

/-- The tree with a given right edge. -/
def close : List (Half α) → Operation α → Operation α
  | [], last => last
  | h :: hs, last => close hs (.apply h.operator h.left last)

def operation (s : Spine α) : Operation α := close s.halves s.last

/-- Closes the operators that bind at least as tight as a priority. -/
def settle (p : Int) : List (Half α) → Operation α → Spine α
  | [], last => ⟨[], last⟩
  | h :: hs, last =>
    if p ≤ h.priority then settle p hs (.apply h.operator h.left last) else ⟨h :: hs, last⟩

/-- The postorder of what is at the left of the edge. -/
def shown : List (Half α) → List α
  | [] => []
  | h :: hs => shown hs ++ h.left.postorder

theorem settle_cons_of_le {p : Int} {h : Half α} (hp : p ≤ h.priority) (hs : List (Half α))
    (last : Operation α) :
    settle p (h :: hs) last = settle p hs (.apply h.operator h.left last) := if_pos hp

theorem settle_cons_of_lt {p : Int} {h : Half α} (hp : h.priority < p) (hs : List (Half α))
    (last : Operation α) : settle p (h :: hs) last = ⟨h :: hs, last⟩ := if_neg (by omega)

theorem operation_settle (p : Int) (hs : List (Half α)) (last : Operation α) :
    (settle p hs last).operation = close hs last := by
  induction hs generalizing last with
  | nil => rfl
  | cons h hs ih =>
    rw [settle]
    split
    · exact ih _
    · rfl

/-- The operators of the edge come last, the innermost first. -/
theorem postorder_close (hs : List (Half α)) (last : Operation α) :
    (close hs last).postorder = shown hs ++ (last.postorder ++ hs.map Half.operator) := by
  induction hs generalizing last with
  | nil => simp [close, shown]
  | cons h hs ih => simp [close, shown, ih, Operation.postorder]

theorem settle_of_forall_le {p : Int} {hs : List (Half α)} (h : ∀ half ∈ hs, p ≤ half.priority)
    (last : Operation α) : settle p hs last = ⟨[], close hs last⟩ := by
  induction hs generalizing last with
  | nil => rfl
  | cons half hs ih =>
    rw [List.forall_mem_cons] at h
    rw [settle_cons_of_le h.1, ih h.2, close]

theorem settle_concat {p : Int} {outermost : Half α} (h : outermost.priority < p)
    (hs : List (Half α)) (last : Operation α) : settle p (hs ++ [outermost]) last =
      ⟨(settle p hs last).halves ++ [outermost], (settle p hs last).last⟩ := by
  induction hs generalizing last with
  | nil => exact settle_cons_of_lt h [] last
  | cons half hs ih =>
    by_cases hle : p ≤ half.priority
    · rw [List.cons_append, settle_cons_of_le hle, settle_cons_of_le hle, ih]
    · have hlt : half.priority < p := by omega
      rw [List.cons_append, settle_cons_of_lt hlt, settle_cons_of_lt hlt]
      rfl

theorem close_apply_ne (hs : List (Half α)) (a b : α) (left right : Operation α) :
    close hs (.apply b left right) ≠ .operand a := by
  induction hs generalizing b left right with
  | nil => exact fun h => by cases h
  | cons half hs ih => exact ih half.operator half.left (.apply b left right)

theorem close_concat (hs : List (Half α)) (outermost : Half α) (last : Operation α) :
    close (hs ++ [outermost]) last =
      .apply outermost.operator outermost.left (close hs last) := by
  induction hs generalizing last with
  | nil => rfl
  | cons half hs ih => rw [List.cons_append, close, ih, close]

end Spine

/-! ## The tree of a phrase -/

mutual

def Atom.operation : Atom α → Operation α
  | .operand a => .operand a
  | .paren inside => inside.spine.operation

def Phrase.spine : Phrase α → Spine α
  | .atom t => ⟨[], t.operation⟩
  | .operate left a p right =>
    let settled := Spine.settle p left.spine.halves left.spine.last
    ⟨⟨a, p, settled.last⟩ :: settled.halves, right.operation⟩

end

def Phrase.operation (f : Phrase α) : Operation α := f.spine.operation

theorem Phrase.operation_operate_ne (left : Phrase α) (b a : α) (p : Int) (right : Atom α) :
    (Phrase.operate left b p right).operation ≠ .operand a := by
  rw [Phrase.operation, Phrase.spine]
  exact Spine.close_apply_ne _ a b _ _

/-- A new operator stands over what it has closed, under what it has not. -/
theorem Phrase.postorder_operate (left : Phrase α) (a : α) (p : Int) (right : Atom α) :
    (Phrase.operate left a p right).operation.postorder.Perm
      (left.operation.postorder ++ a :: right.operation.postorder) := by
  have hleft : left.operation =
      Spine.close (Spine.settle p left.spine.halves left.spine.last).halves
        (Spine.settle p left.spine.halves left.spine.last).last :=
    (Spine.operation_settle p left.spine.halves left.spine.last).symm
  rw [hleft, Phrase.operation, Phrase.spine, Spine.operation, Spine.postorder_close,
    Spine.postorder_close, Spine.shown]
  generalize Spine.settle p left.spine.halves left.spine.last = settled
  rw [List.map_cons, List.append_assoc, List.append_assoc, List.append_assoc]
  refine List.Perm.append_left _ (List.Perm.append_left _ ?_)
  exact List.perm_append_comm.trans List.perm_middle.symm

mutual

theorem Atom.postorder_perm : ∀ t : Atom α, t.operation.postorder.Perm t.names
  | .operand _ => .refl _
  | .paren inside => Phrase.postorder_perm inside

/-- The tree of a phrase has each of its operands and operators once. -/
theorem Phrase.postorder_perm : ∀ f : Phrase α, f.operation.postorder.Perm f.names
  | .atom t => Atom.postorder_perm t
  | .operate left a p right =>
    (Phrase.postorder_operate left a p right).trans
      ((Phrase.postorder_perm left).append ((Atom.postorder_perm right).cons a))

end

/-! ## Operands and operators -/

variable (P Q : α → Prop)

/-- Every operand has one property, every operator another. -/
def Operation.All : Operation α → Prop
  | .operand a => P a
  | .apply a left right => Q a ∧ left.All ∧ right.All

mutual

def Atom.All : Atom α → Prop
  | .operand a => P a
  | .paren inside => inside.All

def Phrase.All : Phrase α → Prop
  | .atom t => t.All
  | .operate left a _ right => left.All ∧ Q a ∧ right.All

end

variable {P Q}

theorem Operation.All.of_mem {op : Operation α} (h : op.All P Q) {a : α} (ha : a ∈ op.postorder) :
    P a ∨ Q a := by
  induction op with
  | operand b =>
    rw [postorder, List.mem_singleton] at ha
    rw [ha]
    exact .inl h
  | apply b left right ihleft ihright =>
    obtain ⟨hb, hleft, hright⟩ := h
    simp only [postorder, List.mem_append, List.mem_singleton] at ha
    rcases ha with (ha | ha) | rfl
    · exact ihleft hleft ha
    · exact ihright hright ha
    · exact .inr hb

theorem Spine.close_all (hs : List (Half α)) (last : Operation α) : (close hs last).All P Q ↔
    (∀ h ∈ hs, Q h.operator ∧ h.left.All P Q) ∧ last.All P Q := by
  induction hs generalizing last with
  | nil => simp [close]
  | cons h hs ih =>
    rw [close, ih, List.forall_mem_cons, Operation.All]
    constructor
    · rintro ⟨hhs, hop, hleft, hlast⟩
      exact ⟨⟨⟨hop, hleft⟩, hhs⟩, hlast⟩
    · rintro ⟨⟨⟨hop, hleft⟩, hhs⟩, hlast⟩
      exact ⟨hhs, hop, hleft, hlast⟩

mutual

theorem Atom.operation_all : ∀ t : Atom α, t.All P Q → t.operation.All P Q
  | .operand _, h => h
  | .paren inside, h => Phrase.operation_all inside h

theorem Phrase.operation_all : ∀ f : Phrase α, f.All P Q → f.operation.All P Q
  | .atom t, h => Atom.operation_all t h
  | .operate left a p right, ⟨hleft, ha, hright⟩ => by
    have hsettled := Phrase.operation_all left hleft
    rw [Phrase.operation, Spine.operation, ← Spine.operation_settle p, Spine.operation,
      Spine.close_all] at hsettled
    rw [Phrase.operation, Phrase.spine, Spine.operation, Spine.close_all, List.forall_mem_cons]
    exact ⟨⟨⟨ha, hsettled.2⟩, hsettled.1⟩, Atom.operation_all right hright⟩

end

end Formulary

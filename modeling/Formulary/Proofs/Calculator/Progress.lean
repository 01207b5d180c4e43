import Formulary.Proofs.Calculator.Congruence

/-!
# Evaluating the beginning of a row

The elements of a row are evaluated one after the other, so that a row can be cut at any of them:
what is before it leaves a stack of values, and the rest goes on with that stack.

* `Calculator.stackAfter`, `Calculator.run_append`: the beginning of a row, and the rest.
* `FailsAfter`: an evaluation that fails once another one has come to its end.
* `FailsAfter.noValue`: such an evaluation has no value.
* `Calculator.raises_step`, `Calculator.raises_stackAfter`, `Calculator.raises_run`: which errors a
  part of a row can end in.
-/

namespace Formulary

open Calculator

variable {m : Type → Type} [Monad m] {α β : Type} {tree : Tree}

/-- The stack that is left when some elements have been evaluated in order. -/
def Calculator.stackAfter (c : Calculator m) (tree : Tree)
    (inside : ElementId → Evaluation m Value) : List ElementId → List Value →
    Evaluation m (List Value)
  | [], stack => pure stack
  | id :: ids, stack => do
    let stack ← layered tree id (c.step tree inside id stack)
    c.stackAfter tree inside ids stack

variable [LawfulMonad m] {inside : ElementId → Evaluation m Value} {id : ElementId}

theorem Calculator.run_append (c : Calculator m) (inside : ElementId → Evaluation m Value)
    (ids rest : List ElementId) (stack : List Value) : c.run tree inside (ids ++ rest) stack =
      c.stackAfter tree inside ids stack >>= c.run tree inside rest := by
  induction ids generalizing stack with
  | nil => rw [List.nil_append, stackAfter, pure_bind]
  | cons id ids ih =>
    rw [List.cons_append, run, stackAfter, bind_assoc]
    congr 1
    exact funext ih

/-! ## Failing at a known place -/

theorem throw_bind (e : EvalError) (f : α → Evaluation m β) :
    (throw e : Evaluation m α) >>= f = throw e := by
  apply ExceptT.ext
  simp

theorem adapt_throw {f : EvalError → EvalError} (e : EvalError) :
    (throw e : Evaluation m α).adapt f = throw (f e) := by
  apply ExceptT.ext
  simp [Except.mapError]

/-- An evaluation ends in an error as soon as another one has come to its end. -/
def FailsAfter (y : Evaluation m α) (x : Evaluation m Unit) (e : EvalError) : Prop :=
  y = do
    x
    throw e

def NoValue (y : Evaluation m α) : Prop := ∃ z : Evaluation m Empty, y = Empty.elim <$> z

namespace FailsAfter

variable {x : Evaluation m Unit} {y : Evaluation m α} {e : EvalError}

theorem throw (e : EvalError) : FailsAfter (MonadExcept.throw e : Evaluation m α) (pure ()) e := by
  rw [FailsAfter, pure_bind]

/-- What would come after an error does not matter. -/
theorem bind (h : FailsAfter y x e) (f : α → Evaluation m β) : FailsAfter (y >>= f) x e := by
  rw [FailsAfter, show y = _ from h, bind_assoc]
  congr 1
  exact funext fun _ => throw_bind e f

/-- What comes before an error is gone through first. -/
theorem after {f : β → Evaluation m α} (h : ∀ b, FailsAfter (f b) x e) (z : Evaluation m β) :
    FailsAfter (z >>= f) (do let _ ← z; x) e := by
  rw [FailsAfter, bind_assoc]
  congr 1
  exact funext h

theorem adapt (h : FailsAfter y x e) (f : EvalError → EvalError) :
    FailsAfter (y.adapt f) (x.adapt f) (f e) := by
  rw [FailsAfter, show y = _ from h, adapt_bind]
  congr 1
  exact funext fun _ => adapt_throw e

/-- The members of a list before one that fails are gone through first. -/
theorem mapM {f : β → Evaluation m α} {b : β} (h : FailsAfter (f b) x e) (before after : List β) :
    FailsAfter ((before ++ b :: after).mapM f) (do let _ ← before.mapM f; x) e := by
  rw [List.mapM_append]
  refine FailsAfter.after (fun values => ?_) _
  rw [List.mapM_cons]
  exact (h.bind _).bind _

theorem noValue (h : FailsAfter y x e) : NoValue y := by
  refine ⟨do x; MonadExcept.throw e, ?_⟩
  rw [show y = _ from h, map_bind]
  congr 1
  funext _
  rw [← bind_pure_comp, throw_bind]

end FailsAfter

/-! ## Errors of a part of a row -/

namespace Calculator

variable (c : Calculator m) {P : EvalError → Prop}

/-- An element that is evaluated raises what its member and its arguments do. -/
theorem raises_step (hP : EvalError.OfMembers P) (hunbalanced : ∀ n, P (.unbalanced n))
    (hid : tree.IsLeafOperand id ∨ tree.IsOperator id)
    (hinside : ∀ a ∈ arguments tree id, Raises P (inside a)) (stack : List Value) :
    Raises P (c.step tree inside id stack) := by
  rcases hid with h | h
  · rw [c.step_operand inside h]
    exact raises_map _ (c.raises_operandValue hP h hinside)
  · rcases stack with _ | ⟨right, _ | ⟨left, stack⟩⟩
    · rw [c.step_operator_short inside h (by simp)]
      exact raises_throw (hunbalanced 0)
    · rw [c.step_operator_short inside h (by simp)]
      exact raises_throw (hunbalanced 0)
    · rw [c.step_operator inside h]
      exact raises_map _ (c.raises_applyOperator hP _ left right)

theorem raises_stackAfter {ids : List ElementId}
    (hstep : ∀ id ∈ ids, ∀ stack, Raises P (layered tree id (c.step tree inside id stack)))
    (stack : List Value) : Raises P (c.stackAfter tree inside ids stack) := by
  induction ids generalizing stack with
  | nil => exact raises_pure stack
  | cons id ids ih =>
    rw [List.forall_mem_cons] at hstep
    exact raises_bind (hstep.1 stack) fun stack => ih hstep.2 stack

theorem raises_run {ids : List ElementId} (hunbalanced : ∀ n, P (.unbalanced n))
    (hstep : ∀ id ∈ ids, ∀ stack, Raises P (layered tree id (c.step tree inside id stack)))
    (stack : List Value) : Raises P (c.run tree inside ids stack) := by
  have hrun : c.run tree inside (ids ++ []) stack = _ := c.run_append inside ids [] stack
  rw [List.append_nil] at hrun
  rw [hrun]
  refine raises_bind (c.raises_stackAfter hstep stack) fun stack => ?_
  match stack with
  | [v] => exact raises_pure v
  | [] | _ :: _ :: _ => exact raises_throw (hunbalanced _)

end Calculator

end Formulary

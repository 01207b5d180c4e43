import Formulary.Proofs.Calculator.Evaluation
import Formulary.Proofs.Layout.Links
import Formulary.Proofs.Tree.Arena

/-!
# Evaluations that do the same

Two calculators evaluate a row alike if they agree on what the elements in it use, and two trees are
evaluated alike if they differ in nothing but positions and text.  Errors are compared through a map
that may forget where they arose.

* `EvalError.layer`: the layer of an element around an error.
* `Alike`: evaluations that do the same, with rules for their parts.
* `Tree.SameElements`, `Tree.SameEntities`: trees with the same nodes, apart from positions.
* `Calculator.of_mem_postfixOrder`: what stands in a row in postfix order.
* `Calculator.AgreeOn`: two calculators agree on what an element uses.
* `Calculator.step_alike`, `Calculator.run_alike`, `Calculator.evaluate_alike`.
-/

namespace Formulary

variable {m : Type → Type} [Monad m] {α β : Type} {tree tree' : Tree} {ops : List String}

/-- The layer of an element around an error. -/
def EvalError.layer (tree : Tree) (id : ElementId) (source : Option NamedText)
    (inner : EvalError) : EvalError :=
  let e := tree.element id
  .element e.kind e.text e.position (e.position.span tree.source) source inner

/-- An error inside elements, the outermost first. -/
def EvalError.within (tree : Tree) (cause : EvalError) (path : List ElementId) : EvalError :=
  path.foldr (fun id => EvalError.layer tree id none) cause

theorem EvalError.rootCause_withSource (e : EvalError) (source : NamedText) :
    (e.withSource source).rootCause = e.rootCause := by
  cases e <;> rfl

/-- Whether an evaluation has ended in an error. -/
def EvalError.endsIn (e : EvalError) : Except EvalError α → Bool
  | .ok _ => false
  | .error e' => e' = e

theorem EvalError.eq_of_endsIn {e : EvalError} {r : Except EvalError α} (h : e.endsIn r) :
    r = .error e := by
  cases r with
  | ok a => cases h
  | error e' => exact congrArg _ (of_decide_eq_true h)

theorem Calculator.layered_eq (tree : Tree) (id : ElementId) (x : Evaluation m α) :
    layered tree id x = x.adapt (EvalError.layer tree id none) := rfl

/-! ## Evaluations that do the same -/

variable {u : EvalError → EvalError}

/-- Two evaluations have the same effects and the same value, or errors that are the same when read
through a map. -/
def Alike (u : EvalError → EvalError) (x y : Calculator.Evaluation m α) : Prop :=
  x.adapt u = y.adapt u

namespace Alike

open Calculator

variable {x y : Evaluation m α} {f g : α → Evaluation m β}

theorem refl (u : EvalError → EvalError) (x : Evaluation m α) : Alike u x x := rfl

variable [LawfulMonad m]

/-- Where no error is changed, evaluations that do the same are equal. -/
theorem eq (h : Alike id x y) : x = y := by
  have hself : ∀ z : Evaluation m α, z.adapt id = z := fun z => by
    apply ExceptT.ext
    rw [ExceptT.run_adapt, show Except.mapError (α := α) (id : EvalError → EvalError) = id from
      funext fun r => by cases r <;> rfl, id_map]
  rw [← hself x, ← hself y]
  exact h

theorem bind (h : Alike u x y) (hf : ∀ a, Alike u (f a) (g a)) :
    Alike u (x >>= f) (y >>= g) := by
  rw [Alike, adapt_bind, adapt_bind, h]
  congr 1
  exact funext hf

theorem map (f : α → β) (h : Alike u x y) : Alike u (f <$> x) (f <$> y) := by
  rw [Alike, adapt_map, adapt_map, h]

theorem mapM {f g : α → Evaluation m β} {as : List α} (h : ∀ a ∈ as, Alike u (f a) (g a)) :
    Alike u (as.mapM f) (as.mapM g) := by
  induction as with
  | nil => exact refl u _
  | cons a as ih =>
    rw [List.forall_mem_cons] at h
    rw [List.mapM_cons, List.mapM_cons]
    exact bind h.1 fun b => bind (ih h.2) fun bs => refl u _

end Alike

/-- Two changes of an error are the same change of what a map shows of it. -/
def EvalError.Blurs (u f f' : EvalError → EvalError) : Prop :=
  ∃ g : EvalError → EvalError, ∀ e, u (f e) = g (u e) ∧ u (f' e) = g (u e)

theorem EvalError.blurs_id (f : EvalError → EvalError) : Blurs id f f :=
  ⟨f, fun _ => ⟨rfl, rfl⟩⟩

theorem Alike.adapt [LawfulMonad m] {x y : Calculator.Evaluation m α}
    {f f' : EvalError → EvalError} (h : Alike u x y) (hu : EvalError.Blurs u f f') :
    Alike u (x.adapt f) (y.adapt f') := by
  obtain ⟨g, hg⟩ := hu
  have hleft : u ∘ f = g ∘ u := funext fun e => (hg e).1
  have hright : u ∘ f' = g ∘ u := funext fun e => (hg e).2
  rw [Alike, Calculator.adapt_adapt, Calculator.adapt_adapt, hleft, hright,
    ← Calculator.adapt_adapt, ← Calculator.adapt_adapt, h]

/-- A map of errors that does not tell two trees apart. -/
structure EvalError.BlursTrees (u : EvalError → EvalError) (tree tree' : Tree) : Prop where
  layer : ∀ id, Blurs u (layer tree id none) (layer tree' id none)
  source : Blurs u (withSource tree.namedText) (withSource tree'.namedText)

theorem EvalError.blursTrees_id (tree : Tree) : BlursTrees id tree tree :=
  ⟨fun _ => blurs_id _, blurs_id _⟩

/-! ## Rows -/

/-- Two trees have the same elements, apart from their positions. -/
def Tree.SameElements (tree tree' : Tree) : Prop :=
  ∀ id, (tree'.element id).unplaced = (tree.element id).unplaced

namespace Tree.SameElements

variable (h : tree.SameElements tree')
include h

theorem kind (id : ElementId) : (tree'.element id).kind = (tree.element id).kind :=
  show (tree'.element id).unplaced.kind = (tree.element id).unplaced.kind from congrArg _ (h id)

theorem text (id : ElementId) : (tree'.element id).text = (tree.element id).text :=
  show (tree'.element id).unplaced.text = (tree.element id).unplaced.text from congrArg _ (h id)

theorem children (id : ElementId) : (tree'.element id).children = (tree.element id).children :=
  show (tree'.element id).unplaced.children = (tree.element id).unplaced.children from
    congrArg _ (h id)

theorem arguments (id : ElementId) :
    Calculator.arguments tree' id = Calculator.arguments tree id := by
  simp only [Calculator.arguments, h.children]

end Tree.SameElements

theorem Tree.SameElements.refl (tree : Tree) : tree.SameElements tree := fun _ => rfl

/-- Two trees have the same entities, apart from their positions. -/
def Tree.SameEntities (tree tree' : Tree) : Prop :=
  ∀ id, (tree'.entity id).unplaced = (tree.entity id).unplaced

namespace Tree.SameEntities

variable (h : tree.SameEntities tree')
include h

theorem name (id : EntityId) : (tree'.entity id).name = (tree.entity id).name :=
  show (tree'.entity id).unplaced.name = (tree.entity id).unplaced.name from congrArg _ (h id)

theorem content (id : EntityId) : (tree'.entity id).content = (tree.entity id).content :=
  show (tree'.entity id).unplaced.content = (tree.entity id).unplaced.content from
    congrArg _ (h id)

theorem find? (path : String) : tree'.find? path = tree.find? path := by
  have hmember : tree'.member? = tree.member? := by
    funext id name
    simp only [member?, h.name, h.content]
  rw [Tree.find?, Tree.find?, hmember]

end Tree.SameEntities

theorem Tree.SameEntities.refl (tree : Tree) : tree.SameEntities tree := fun _ => rfl

omit [Monad m] in
/-- A row holds the elements that stand in it in postfix order, which yield values on their own or
are operators; whatever arguments they have are rows. -/
theorem Calculator.of_mem_postfixOrder (c : Calculator m) (hfits : tree.WellFormed ops)
    {row id : ElementId} (hlt : row < tree.elements.size) (hrow : tree.HasRow row)
    (hid : id ∈ c.postfixOrder tree row) : id ∈ (tree.element row).children ∧
      (tree.IsLeafOperand id ∨ tree.IsOperator id) ∧
      ∀ a ∈ arguments tree id, a < tree.elements.size ∧ tree.HasRow a := by
  obtain ⟨op, -, horder, hperm, hall⟩ := c.exists_operation hfits hlt hrow
  rw [horder] at hid
  have hchild := Array.mem_toList_iff.mp (List.mem_filter.mp (hperm.mem_iff.mp hid)).1
  exact ⟨hchild, hall.of_mem hid, fun a ha => hasRow_of_mem_arguments hfits
    ((hfits.elements row hlt).inside id hchild) (hall.of_mem hid) ha⟩

theorem Links.Below.trans {l : Links} {top i j : Nat} (h : l.Below top i) (h' : l.Below i j) :
    l.Below top j := by
  induction h' with
  | top => exact h
  | child _ hc ih => exact .child ih hc

theorem Tree.below_of_mem_arguments {row id a e : ElementId}
    (hid : id ∈ (tree.element row).children) (ha : a ∈ Calculator.arguments tree id)
    (he : tree.elementLinks.Below a e) : tree.elementLinks.Below row e :=
  Links.Below.trans (.child (.child .top (Array.mem_toList_iff.mpr hid))
    (Array.mem_toList_iff.mpr (Calculator.mem_arguments.mp ha).1)) he

/-- Only what is in the table of entities is an expression, and its root node is a row. -/
theorem Tree.WellFormed.root_of_content (hfits : tree.WellFormed ops) {id : EntityId}
    {root : ElementId} {parens : Nat} (h : (tree.entity id).content = .expression root parens) :
    root < tree.elements.size ∧ (tree.element root).kind = .node := by
  by_cases hid : id < tree.entities.size
  · have hcontent := (hfits.entities id hid).content
    rw [h] at hcontent
    exact ⟨hcontent.1, hcontent.2.1⟩
  · have hle : tree.entities.size ≤ id := Nat.le_of_not_lt hid
    rw [Tree.entity, Array.getD_eq_getD_getElem?, Array.getElem?_eq_none hle] at h
    cases h

/-! ## Calculators -/

namespace Calculator

/-- Two calculators agree on all that an element uses of them. -/
structure AgreeOn (c c' : Calculator m) (e : Element) : Prop where
  priority : e.kind = .operator → c'.priority e.text = c.priority e.text
  operator : e.kind = .operator →
    ∀ x y, c'.applyOperator e.text x y = c.applyOperator e.text x y
  identifier : e.kind = .identifier → c'.readVariable e.text = c.readVariable e.text
  method : e.kind = .function →
    ∀ values, c'.callMethod e.text values = c.callMethod e.text values

theorem AgreeOn.refl (c : Calculator m) (e : Element) : c.AgreeOn c e :=
  ⟨fun _ => rfl, fun _ _ _ => rfl, fun _ => rfl, fun _ _ => rfl⟩

variable {c c' : Calculator m} {inside inside' : ElementId → Evaluation m Value}
  {id row : ElementId}

/-- The same elements make up the same row where their operators have the same priorities. -/
theorem postfixOrder_congr (hsame : tree.SameElements tree')
    (hagree : ∀ e ∈ (tree.element row).children, c.AgreeOn c' (tree.element e)) :
    c'.postfixOrder tree' row = c.postfixOrder tree row := by
  have hrow : c'.row tree' row = c.row tree row := by
    rw [Calculator.row, Calculator.row, hsame.children]
    refine List.filterMap_congr fun e he => ?_
    have hpriority := (hagree e (Array.mem_toList_iff.mp he)).priority
    simp only [token?, hsame.kind, hsame.text]
    cases hkind : (tree.element e).kind with
    | operator => rw [hpriority hkind]
    | _ => rfl
  rw [postfixOrder, postfixOrder, hrow]

variable [LawfulMonad m]

/-- The value of an operand depends on what it uses and on its arguments. -/
theorem operandValue_alike (hsame : tree.SameElements tree') (hid : tree.IsLeafOperand id)
    (hagree : c.AgreeOn c' (tree.element id))
    (hinside : ∀ a ∈ arguments tree id, Alike u (inside a) (inside' a)) :
    Alike u (c.operandValue tree inside id) (c'.operandValue tree' inside' id) := by
  rcases hid with h | h | h | h <;>
    simp only [operandValue, hsame.kind, hsame.text, hsame.arguments, h]
  · exact .refl u _
  · exact .refl u _
  · rw [hagree.identifier h]
    exact .refl u _
  · refine (Alike.mapM hinside).bind fun values => ?_
    rw [hagree.method h]
    exact .refl u _

theorem step_alike (hsame : tree.SameElements tree')
    (hid : tree.IsLeafOperand id ∨ tree.IsOperator id) (hagree : c.AgreeOn c' (tree.element id))
    (hinside : ∀ a ∈ arguments tree id, Alike u (inside a) (inside' a)) (stack : List Value) :
    Alike u (c.step tree inside id stack) (c'.step tree' inside' id stack) := by
  rcases hid with h | h
  · have h' : tree'.IsLeafOperand id := by simpa only [Tree.IsLeafOperand, hsame.kind] using h
    rw [c.step_operand inside h, c'.step_operand inside' h']
    exact (operandValue_alike hsame h hagree hinside).map _
  · have h' : tree'.IsOperator id := (hsame.kind id).trans h
    rcases stack with _ | ⟨right, _ | ⟨left, stack⟩⟩
    · rw [c.step_operator_short inside h (by simp), c'.step_operator_short inside' h' (by simp)]
      exact .refl u _
    · rw [c.step_operator_short inside h (by simp), c'.step_operator_short inside' h' (by simp)]
      exact .refl u _
    · rw [c.step_operator inside h, c'.step_operator inside' h', hsame.text, hagree.operator h]
      exact .refl u _

theorem run_alike (hu : EvalError.BlursTrees u tree tree') {ids : List ElementId}
    (hstep : ∀ id ∈ ids, ∀ stack,
      Alike u (c.step tree inside id stack) (c'.step tree' inside' id stack))
    (stack : List Value) :
    Alike u (c.run tree inside ids stack) (c'.run tree' inside' ids stack) := by
  induction ids generalizing stack with
  | nil =>
    match stack with
    | [] | [_] | _ :: _ :: _ => exact .refl u _
  | cons id ids ih =>
    rw [List.forall_mem_cons] at hstep
    exact ((hstep.1 stack).adapt (hu.layer id)).bind fun stack => ih hstep.2 stack

/-- A row is evaluated alike by calculators that agree on all that is below it, in trees with the
same elements. -/
theorem evaluate_alike (hfits : tree.WellFormed ops) (hsame : tree.SameElements tree')
    (hu : EvalError.BlursTrees u tree tree') (hlimit : c'.depthLimit = c.depthLimit) (room : Nat) :
    ∀ {row : ElementId}, row < tree.elements.size → tree.HasRow row →
      (∀ e, tree.elementLinks.Below row e → c.AgreeOn c' (tree.element e)) →
      Alike u (c.evaluate tree room row) (c'.evaluate tree' room row) := by
  induction room with
  | zero =>
    intro row _ _ _
    rw [evaluate, evaluate, hlimit]
    exact .refl u _
  | succ room ih =>
    intro row hlt hrow hagree
    have hchild : ∀ e ∈ (tree.element row).children, c.AgreeOn c' (tree.element e) :=
      fun e he => hagree e (.child .top (Array.mem_toList_iff.mpr he))
    rw [evaluate, evaluate, postfixOrder_congr hsame hchild]
    refine run_alike hu (fun id hid stack => ?_) []
    obtain ⟨hmem, hvalue, hinside⟩ := c.of_mem_postfixOrder hfits hlt hrow hid
    refine step_alike hsame hvalue (hchild id hmem) (fun a ha => ?_) stack
    exact ih (hinside a ha).1 (hinside a ha).2 fun e he =>
      hagree e (Tree.below_of_mem_arguments hmem ha he)

/-- An expression has the same value for calculators that agree on all its elements, in trees that
differ in nothing but positions and text. -/
theorem valueOf_alike (hfits : tree.WellFormed ops) (hsame : tree.SameElements tree')
    (hentities : tree.SameEntities tree') (hu : EvalError.BlursTrees u tree tree')
    (hlimit : c'.depthLimit = c.depthLimit) {id : EntityId}
    (hagree : ∀ root ∈ tree.rootNode? id, ∀ e, tree.elementLinks.Below root e →
      c.AgreeOn c' (tree.element e)) :
    Alike u (c.valueOf tree id) (c'.valueOf tree' id) := by
  rw [valueOf, valueOf, hentities.name, hentities.content]
  cases h : (tree.entity id).content with
  | sect title members => exact .refl u _
  | array items => exact .refl u _
  | expression root parens =>
    obtain ⟨hlt, hnode⟩ := hfits.root_of_content h
    have hroot : root ∈ tree.rootNode? id := by rw [Tree.rootNode?, h]; rfl
    simp only [hlimit]
    exact (evaluate_alike hfits hsame hu hlimit _ hlt (.inl hnode) (hagree root hroot)).adapt
      hu.source

end Calculator

end Formulary

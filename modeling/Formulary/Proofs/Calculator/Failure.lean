import Formulary.Proofs.Calculator.Progress
import Formulary.Proofs.Tree.Invariance
import Formulary.Proofs.Tree.Positions

/-!
# Where an evaluation fails

The members of libraries act on a world.  When an expression has no value in some world, its error
has one layer for the element that fails and one for each call around it, and everything before
these elements has been evaluated.

* `Interpretation`: how the effects of a monad act on a world; `Interpretation.state`.
* `Interpretation.Yields`, `Interpretation.Fails`: how an evaluation ends in a world, with rules for
  its parts.
* `Calculator.FailsItself`: an element fails, and nothing inside it.
* `Calculator.FailsAlong`: a row fails at an element of it, or inside a call of it.
* `Tree.Descends`: a path through calls.
* `Calculator.valueOf_fails`: the error of an expression.
-/

namespace Formulary

open Calculator

variable {m : Type → Type} [Monad m] {W α β : Type} {tree : Tree} {ops : List String}

/-! ## Evaluation in a world -/

/-- How the effects of a monad act on a world. -/
structure Interpretation (m : Type → Type) [Monad m] (W : Type) where
  run : {α : Type} → m α → W → α × W
  run_pure : ∀ {α : Type} (a : α) (w : W), run (pure a) w = (a, w)
  run_bind : ∀ {α β : Type} (x : m α) (f : α → m β) (w : W),
    run (x >>= f) w = run (f (run x w).1) (run x w).2

namespace Interpretation

def state (W : Type) : Interpretation (StateM W) W where
  run x w := x.run w
  run_pure _ _ := rfl
  run_bind _ _ _ := rfl

variable (s : Interpretation m W)

def outcome (x : Evaluation m α) (w : W) : Except EvalError α × W := s.run x.run w

/-- In a world, an evaluation comes to a value and leaves another world. -/
def Yields (x : Evaluation m α) (w : W) (a : α) (w' : W) : Prop := s.outcome x w = (.ok a, w')

def Fails (x : Evaluation m α) (w : W) (e : EvalError) (w' : W) : Prop :=
  s.outcome x w = (.error e, w')

variable {s} {x : Evaluation m α} {f : α → Evaluation m β} {w w' : W} {e : EvalError}

theorem outcome_bind (x : Evaluation m α) (f : α → Evaluation m β) (w : W) :
    s.outcome (x >>= f) w =
      match s.outcome x w with
      | (.ok a, w₁) => s.outcome (f a) w₁
      | (.error e, w₁) => (.error e, w₁) := by
  rw [outcome, ExceptT.run_bind, s.run_bind, outcome]
  rcases s.run x.run w with ⟨e | a, w₁⟩
  · exact s.run_pure _ w₁
  · rfl

theorem outcome_pure (a : α) (w : W) : s.outcome (pure a : Evaluation m α) w = (.ok a, w) :=
  s.run_pure (Except.ok a) w

theorem outcome_throw (e : EvalError) (w : W) :
    s.outcome (throw e : Evaluation m α) w = (.error e, w) :=
  s.run_pure (Except.error e) w

theorem yields_bind {b : β} : s.Yields (x >>= f) w b w' ↔
    ∃ a w₁, s.Yields x w a w₁ ∧ s.Yields (f a) w₁ b w' := by
  simp only [Yields, outcome_bind]
  rcases s.outcome x w with ⟨e | a, w₁⟩ <;> simp

theorem fails_bind : s.Fails (x >>= f) w e w' ↔
    s.Fails x w e w' ∨ ∃ a w₁, s.Yields x w a w₁ ∧ s.Fails (f a) w₁ e w' := by
  simp only [Yields, Fails, outcome_bind]
  rcases s.outcome x w with ⟨e | a, w₁⟩ <;> simp

theorem yields_pure {a b : α} : s.Yields (pure a) w b w' ↔ b = a ∧ w' = w := by
  rw [Yields, outcome_pure]
  simp [eq_comm]

theorem not_fails_pure {a : α} : ¬s.Fails (pure a) w e w' := by
  rw [Fails, outcome_pure]
  simp

theorem fails_throw {e' : EvalError} :
    s.Fails (throw e' : Evaluation m α) w e w' ↔ e = e' ∧ w' = w := by
  rw [Fails, outcome_throw]
  simp [eq_comm]

theorem not_yields_throw {e' : EvalError} {a : α} : ¬s.Yields (throw e') w a w' := by
  rw [Yields, outcome_throw]
  simp

variable [LawfulMonad m]

theorem fails_map {g : α → β} : s.Fails (g <$> x) w e w' ↔ s.Fails x w e w' := by
  rw [← bind_pure_comp, fails_bind]
  simp [not_fails_pure]

theorem outcome_adapt {ε : Type} (x : ExceptT ε m α) (u : ε → EvalError) (w : W) :
    s.outcome (x.adapt u) w = (Except.mapError u (s.run x.run w).1, (s.run x.run w).2) := by
  rw [outcome, ExceptT.run_adapt, ← bind_pure_comp, s.run_bind, s.run_pure]

theorem fails_adapt {u : EvalError → EvalError} :
    s.Fails (x.adapt u) w e w' ↔ ∃ inner, e = u inner ∧ s.Fails x w inner w' := by
  simp only [Fails, outcome_adapt]
  rw [outcome]
  rcases s.run x.run w with ⟨inner | a, w₁⟩ <;> simp [Except.mapError, eq_comm]

theorem fails_mapM {as : List α} (h : s.Fails (as.mapM f) w e w') :
    ∃ earlier a later bs w₁, as = earlier ++ a :: later ∧ s.Yields (earlier.mapM f) w bs w₁ ∧
      s.Fails (f a) w₁ e w' := by
  induction as generalizing w with
  | nil => exact absurd h not_fails_pure
  | cons a as ih =>
    rw [List.mapM_cons, fails_bind] at h
    rcases h with h | ⟨b, w₁, hb, h⟩
    · exact ⟨[], a, as, [], w, rfl, yields_pure.mpr ⟨rfl, rfl⟩, h⟩
    · rcases fails_bind.mp h with h | ⟨bs, w₂, -, h⟩
      · obtain ⟨earlier, a', later, bs, w₂, rfl, hbs, ha'⟩ := ih h
        refine ⟨a :: earlier, a', later, b :: bs, w₂, rfl, ?_, ha'⟩
        rw [List.mapM_cons]
        exact yields_bind.mpr ⟨b, w₁, hb, yields_bind.mpr ⟨bs, w₂, hbs,
          yields_pure.mpr ⟨rfl, rfl⟩⟩⟩
      · exact absurd h not_fails_pure

end Interpretation

open Interpretation

variable {s : Interpretation m W} {w w' : W} {e : EvalError}

theorem Calculator.Raises.of_fails [LawfulMonad m] {P : EvalError → Prop} {x : Evaluation m α}
    (hx : Raises P x) (h : s.Fails x w e w') : P e := by
  obtain ⟨y, rfl⟩ := hx
  rw [Fails, outcome_adapt] at h
  have hy : Except.mapError Subtype.val (s.run y.run w).1 = .error e := congrArg Prod.fst h
  cases hresult : (s.run y.run w).1 with
  | error inner =>
    rw [hresult] at hy
    cases hy
    exact inner.property
  | ok a =>
    rw [hresult] at hy
    cases hy

def EvalError.IsCause (e : EvalError) : Prop := e.rootCause = e

theorem EvalError.isCause_ofMembers : OfMembers IsCause where
  unknownLibrary _ := rfl
  noMember _ _ _ := rfl
  memberFailed _ _ _ _ := rfl

theorem EvalError.rootCause_ne_layer (e : EvalError) (tree : Tree) (id : ElementId)
    (source : Option NamedText) (inner : EvalError) : e.rootCause ≠ layer tree id source inner := by
  induction e with
  | element _ _ _ _ _ _ ih => exact ih
  | _ => exact EvalError.noConfusion

def Tree.site (tree : Tree) (id : ElementId) : ElementKind × Position :=
  ((tree.element id).kind, (tree.element id).position)

/-- An error tells its cause, and the kinds and places of the elements on its path. -/
theorem EvalError.within_inj {cause cause' : EvalError} (h : cause.IsCause) (h' : cause'.IsCause) :
    ∀ {path path' : List ElementId}, cause.within tree path = cause'.within tree path' →
      cause = cause' ∧ path.map tree.site = path'.map tree.site
  | [], [], heq => ⟨heq, rfl⟩
  | [], id :: path', heq =>
    absurd (h.trans heq) (rootCause_ne_layer cause tree id none (cause'.within tree path'))
  | id :: path, [], heq =>
    absurd (h'.trans heq.symm) (rootCause_ne_layer cause' tree id none (cause.within tree path))
  | id :: path, id' :: path', heq => by
    obtain ⟨hkind, -, hposition, -, -, hinner⟩ := EvalError.element.inj heq
    obtain ⟨hcause, hpath⟩ := within_inj h h' hinner
    exact ⟨hcause, congrArg₂ List.cons (Prod.ext hkind hposition) hpath⟩

/-! ## Paths -/

/-- A path from a row to an element of it, or through a call of it and an argument of the call. -/
inductive Tree.Descends (tree : Tree) : ElementId → List ElementId → Prop
  | child {row id : ElementId} : id ∈ (tree.element row).children → Descends tree row [id]
  | inside {row id a : ElementId} {path : List ElementId} : id ∈ (tree.element row).children →
      (tree.element id).kind = .function → a ∈ (tree.element id).children →
      (tree.element a).kind = .argument → Descends tree a path → Descends tree row (id :: path)

theorem Tree.Descends.lt (hfits : tree.WellFormed ops) {row id : ElementId}
    {path : List ElementId} (h : tree.Descends row path) (hrow : row < tree.elements.size)
    (hid : id ∈ path) : id < tree.elements.size := by
  induction h with
  | child hchild =>
    rw [List.mem_singleton.mp hid]
    exact (hfits.elements _ hrow).inside _ hchild
  | inside hchild _ ha _ _ ih =>
    have hlt := (hfits.elements _ hrow).inside _ hchild
    rcases List.mem_cons.mp hid with rfl | hid
    · exact hlt
    · exact ih ((hfits.elements _ hlt).inside _ ha) hid

namespace Calculator

/-- An element fails itself: its variable, its operator or its method does, or it is a call with an
argument that is nested too deep.  Its arguments, if any are evaluated, have values. -/
inductive FailsItself (c : Calculator m) (s : Interpretation m W) (tree : Tree) :
    Nat → ElementId → List Value → EvalError → W → W → Prop
  | variable {room : Nat} {id : ElementId} {stack : List Value} {cause : EvalError} {w w' : W} :
      (tree.element id).kind = .identifier →
      s.Fails (c.readVariable (tree.element id).text) w cause w' →
      FailsItself c s tree room id stack cause w w'
  | operator {room : Nat} {id : ElementId} {left right : Value} {stack : List Value}
      {cause : EvalError} {w w' : W} : (tree.element id).kind = .operator →
      s.Fails (c.applyOperator (tree.element id).text left right) w cause w' →
      FailsItself c s tree room id (right :: left :: stack) cause w w'
  | method {room : Nat} {id : ElementId} {stack values : List Value} {cause : EvalError}
      {w w₁ w' : W} : (tree.element id).kind = .function →
      s.Yields ((arguments tree id).mapM (c.evaluate tree room)) w values w₁ →
      s.Fails (c.callMethod (tree.element id).text values) w₁ cause w' →
      FailsItself c s tree room id stack cause w w'
  | tooDeep {id : ElementId} {stack : List Value} {w : W} : (tree.element id).kind = .function →
      arguments tree id ≠ [] → FailsItself c s tree 0 id stack (.tooDeep c.depthLimit) w w

/-- A row fails at an element of it, or at a call inside of which a row fails.  Everything before
the element has been evaluated, and so have the arguments before the one that fails. -/
inductive FailsAlong (c : Calculator m) (s : Interpretation m W) (tree : Tree) :
    Nat → ElementId → List ElementId → EvalError → W → W → Prop
  | here {room : Nat} {row id : ElementId} {before after : List ElementId} {stack : List Value}
      {cause : EvalError} {w w₁ w' : W} : c.postfixOrder tree row = before ++ id :: after →
      s.Yields (c.stackAfter tree (c.evaluate tree room) before []) w stack w₁ →
      c.FailsItself s tree room id stack cause w₁ w' →
      FailsAlong c s tree (room + 1) row [id] cause w w'
  | inside {room : Nat} {row id a : ElementId} {before after earlier later : List ElementId}
      {path : List ElementId} {stack values : List Value} {cause : EvalError} {w w₁ w₂ w' : W} :
      c.postfixOrder tree row = before ++ id :: after →
      s.Yields (c.stackAfter tree (c.evaluate tree room) before []) w stack w₁ →
      (tree.element id).kind = .function → arguments tree id = earlier ++ a :: later →
      s.Yields (earlier.mapM (c.evaluate tree room)) w₁ values w₂ →
      FailsAlong c s tree room a path cause w₂ w' →
      FailsAlong c s tree (room + 1) row (id :: path) cause w w'

variable {c : Calculator m} {room : Nat} {row id : ElementId} {cause : EvalError}
  {stack : List Value} {path : List ElementId}

theorem FailsAlong.ne_nil (h : c.FailsAlong s tree room row path cause w w') : path ≠ [] := by
  cases h <;> exact List.cons_ne_nil _ _

theorem FailsAlong.descends (hfits : tree.WellFormed ops)
    (h : c.FailsAlong s tree room row path cause w w') (hlt : row < tree.elements.size)
    (hrow : tree.HasRow row) : tree.Descends row path := by
  induction h with
  | @here _ row id before after _ _ _ _ _ horder =>
    exact .child (c.of_mem_postfixOrder hfits hlt hrow (by rw [horder]; simp)).1
  | @inside _ row id a before after earlier later path _ _ _ _ _ _ _ horder _ hkind harguments _ _
      ih =>
    have hid : id ∈ c.postfixOrder tree row := by rw [horder]; simp
    obtain ⟨hchild, hvalue, hrows⟩ := c.of_mem_postfixOrder hfits hlt hrow hid
    have ha : a ∈ arguments tree id := by rw [harguments]; simp
    have hmem := (mem_arguments.mp ha).1
    have hlt' := (hfits.elements row hlt).inside id hchild
    have hargument := (hfits.kind_of_mem_children hlt' hvalue hmem).2
    exact .inside hchild hkind hmem hargument (ih (hrows a ha).1 (hrows a ha).2)

variable [LawfulMonad m]

theorem FailsItself.isCause (h : c.FailsItself s tree room id stack cause w w') :
    cause.IsCause := by
  cases h with
  | «variable» _ h => exact (c.raises_readVariable EvalError.isCause_ofMembers _).of_fails h
  | operator _ h => exact (c.raises_applyOperator EvalError.isCause_ofMembers _ _ _).of_fails h
  | method _ _ h => exact (c.raises_callMethod EvalError.isCause_ofMembers _ _).of_fails h
  | tooDeep => rfl

theorem FailsAlong.isCause (h : c.FailsAlong s tree room row path cause w w') :
    cause.IsCause := by
  induction h with
  | here _ _ h => exact h.isCause
  | inside _ _ _ _ _ _ ih => exact ih

/-! ## The path of an error -/

/-- An element that fails does so itself or inside an argument. -/
theorem step_fails (hid : tree.IsLeafOperand id ∨ tree.IsOperator id) (hbalanced : e.Balanced)
    (h : s.Fails (c.step tree (c.evaluate tree room) id stack) w e w') :
    c.FailsItself s tree room id stack e w w' ∨ (tree.element id).kind = .function ∧
      ∃ earlier a later values w₁, arguments tree id = earlier ++ a :: later ∧
        s.Yields (earlier.mapM (c.evaluate tree room)) w values w₁ ∧
        s.Fails (c.evaluate tree room a) w₁ e w' := by
  rcases hid with hid | hid
  · rw [c.step_operand _ hid, fails_map] at h
    rcases hid with hkind | hkind | hkind | hkind <;> simp only [operandValue, hkind] at h
    · exact absurd h not_fails_pure
    · exact absurd h not_fails_pure
    · exact .inl (.variable hkind h)
    · rcases fails_bind.mp h with h | ⟨values, w₁, hvalues, h⟩
      · exact .inr ⟨hkind, fails_mapM h⟩
      · exact .inl (.method hkind hvalues h)
  · rcases stack with _ | ⟨right, _ | ⟨left, stack⟩⟩
    · rw [c.step_operator_short _ hid (by simp)] at h
      exact absurd (congrArg EvalError.rootCause (fails_throw.mp h).1) (hbalanced _)
    · rw [c.step_operator_short _ hid (by simp)] at h
      exact absurd (congrArg EvalError.rootCause (fails_throw.mp h).1) (hbalanced _)
    · rw [c.step_operator _ hid, fails_map] at h
      exact .inl (.operator hid h)

omit [LawfulMonad m] in
/-- A row that fails does so at an element after others that yield values, unless operands and
operators do not fit together. -/
theorem run_fails {inside : ElementId → Evaluation m Value} {ids : List ElementId}
    (hbalanced : e.Balanced) (h : s.Fails (c.run tree inside ids stack) w e w') :
    ∃ before id after stack' w₁, ids = before ++ id :: after ∧
      s.Yields (c.stackAfter tree inside before stack) w stack' w₁ ∧
      s.Fails (layered tree id (c.step tree inside id stack')) w₁ e w' := by
  induction ids generalizing stack w with
  | nil =>
    match stack with
    | [v] => exact absurd h not_fails_pure
    | [] | _ :: _ :: _ =>
      exact absurd (congrArg EvalError.rootCause (fails_throw.mp h).1) (hbalanced _)
  | cons id ids ih =>
    rw [run] at h
    rcases fails_bind.mp h with h | ⟨stack₁, w₁, hstep, h⟩
    · exact ⟨[], id, ids, stack, w, rfl, yields_pure.mpr ⟨rfl, rfl⟩, h⟩
    · obtain ⟨before, id', after, stack', w₂, rfl, hbefore, h⟩ := ih h
      exact ⟨id :: before, id', after, stack', w₂, rfl,
        yields_bind.mpr ⟨stack₁, w₁, hstep, hbefore⟩, h⟩

theorem failsItself_of_tooDeep {earlier later : List ElementId} {a : ElementId}
    {values : List Value} {w₁ : W} (hkind : (tree.element id).kind = .function)
    (harguments : arguments tree id = earlier ++ a :: later)
    (hearlier : s.Yields (earlier.mapM (c.evaluate tree 0)) w values w₁)
    (ha : s.Fails (c.evaluate tree 0 a) w₁ e w') : c.FailsItself s tree 0 id stack e w w' := by
  obtain ⟨rfl, rfl⟩ := fails_throw.mp ha
  -- an argument before it would have failed first
  cases earlier with
  | nil =>
    obtain ⟨-, rfl⟩ := yields_pure.mp hearlier
    exact .tooDeep hkind (by rw [harguments]; exact List.cons_ne_nil _ _)
  | cons b earlier =>
    rw [List.mapM_cons] at hearlier
    obtain ⟨_, _, hb, -⟩ := yields_bind.mp hearlier
    exact absurd hb not_yields_throw

/-- The error of a row has a layer for each element on the path along which the row fails. -/
theorem evaluate_fails (hfits : tree.WellFormed ops) (room : Nat) :
    ∀ {row : ElementId} {w : W} {e : EvalError}, row < tree.elements.size → tree.HasRow row →
      e.Balanced → s.Fails (c.evaluate tree (room + 1) row) w e w' →
      ∃ path cause, e = cause.within tree path ∧
        c.FailsAlong s tree (room + 1) row path cause w w' := by
  induction room with
  | zero =>
    intro row w e hlt hrow hbalanced h
    obtain ⟨before, id, after, stack, w₁, horder, hbefore, hid⟩ := run_fails hbalanced h
    rw [layered_eq] at hid
    obtain ⟨inner, rfl, hstep⟩ := fails_adapt.mp hid
    have hbalanced : inner.Balanced := hbalanced
    have hmem : id ∈ c.postfixOrder tree row := by rw [horder]; simp
    obtain ⟨-, hvalue, -⟩ := c.of_mem_postfixOrder hfits hlt hrow hmem
    refine ⟨[id], inner, rfl, .here horder hbefore ?_⟩
    rcases step_fails hvalue hbalanced hstep with
      hitself | ⟨hkind, earlier, a, later, values, w₂, harguments, hearlier, ha⟩
    · exact hitself
    · exact failsItself_of_tooDeep hkind harguments hearlier ha
  | succ room ih =>
    intro row w e hlt hrow hbalanced h
    obtain ⟨before, id, after, stack, w₁, horder, hbefore, hid⟩ := run_fails hbalanced h
    rw [layered_eq] at hid
    obtain ⟨inner, rfl, hstep⟩ := fails_adapt.mp hid
    have hbalanced : inner.Balanced := hbalanced
    have hmem : id ∈ c.postfixOrder tree row := by rw [horder]; simp
    obtain ⟨-, hvalue, hrows⟩ := c.of_mem_postfixOrder hfits hlt hrow hmem
    rcases step_fails hvalue hbalanced hstep with
      hitself | ⟨hkind, earlier, a, later, values, w₂, harguments, hearlier, ha⟩
    · exact ⟨[id], inner, rfl, .here horder hbefore hitself⟩
    · have hrow' := hrows a (by rw [harguments]; simp)
      obtain ⟨path, cause, rfl, halong⟩ := ih hrow'.1 hrow'.2 hbalanced ha
      exact ⟨id :: path, cause, rfl, .inside horder hbefore hkind harguments hearlier halong⟩

/-! ## Expressions -/

variable {source : String} {filename : Option String}

variable (c) in
/-- In whatever way the effects act on a world, the error of an expression of a tree that was read
is a cause in the layers of the elements on a path from the root node, which ends at the element
that fails itself.  Everything before these elements has been evaluated; each of them points at its
word in the text, which the outermost layer alone carries. -/
theorem valueOf_fails (h : Tree.read source ops filename = .ok tree) {id : EntityId}
    {root : ElementId} {parens : Nat}
    (hcontent : (tree.entity id).content = .expression root parens)
    (hfails : s.Fails (c.valueOf tree id) w e w') : ∃ top path cause,
      e = EvalError.layer tree top (some tree.namedText) (cause.within tree path) ∧
      cause.IsCause ∧ c.FailsAlong s tree (c.depthLimit + 1) root (top :: path) cause w w' ∧
      tree.Descends root (top :: path) ∧ tree.source = source ∧
      ∀ y ∈ top :: path, tree.ElementPoints source y := by
  have hfits := Tree.wellFormed_of_read h
  have hlinked := Tree.linked_of_read h
  obtain ⟨hlt, hnode⟩ := hfits.root_of_content hcontent
  rw [valueOf, hcontent] at hfails
  obtain ⟨inner, rfl, hroot⟩ := fails_adapt.mp hfails
  have hbalanced : inner.Balanced := by
    have hraises := c.raises_evaluateTree hfits (c.depthLimit + 1) hlt (.inl hnode)
    rw [← c.evaluate_eq_evaluateTree hfits _ hlt (.inl hnode)] at hraises
    exact hraises.of_fails hroot
  obtain ⟨path, cause, rfl, halong⟩ := evaluate_fails hfits _ hlt (.inl hnode) hbalanced hroot
  have hsource : tree.source = source := by
    have hread : Tree.read source ops filename = _ := Tree.read_of_prepare rfl
    rw [h] at hread
    exact congrArg Tree.source (Except.ok.inj hread)
  have hdescends := halong.descends hfits hlt (.inl hnode)
  obtain ⟨top, path, rfl⟩ := List.exists_cons_of_ne_nil halong.ne_nil
  exact ⟨top, path, cause, rfl, halong.isCause, halong, hdescends, hsource, fun y hy =>
    Tree.elementPoints_of_log hlinked hfits (Tree.log_of_read h) (hdescends.lt hfits hlt hy)⟩

/-- A call that fails inside another one, after a call and a variable that do not. -/
def failureSource : String := "#a{b=f(n)-f(n,fail(n));}"

/-- A calculator with a variable that counts how often it is read, and methods of all names of which
one fails. -/
def countingCalculator : Calculator (StateM Nat) where
  libraries := [("system", Table.ofMembers [
    .producer "n" do
      ExceptT.lift (modify (· + 1))
      pure (.boolean true),
    .otherMethods fun name _ =>
      if name = "fail" then throw (.custom "failed") else pure (.boolean false)])]
  operators := standardOperators
  depthLimit := standardDepthLimit

def failureCause : EvalError := .memberFailed "system" .method "fail" (.custom "failed")

/-- The error has a layer for the second call of `f` and one for the call of `fail` in it, after
the variable has been read three times. -/
theorem valueOf_fails_call : ∃ tree, Tree.read failureSource defaultOperators none = .ok tree ∧
    (tree.entity 1).content = .expression 0 0 ∧
    (state Nat).Fails (countingCalculator.valueOf tree 1) 0
      (EvalError.layer tree 5 (some tree.namedText) (failureCause.within tree [9])) 3 ∧
    [5, 9].map (fun e => (tree.element e).text) = ["f", "fail"] ∧
    countingCalculator.FailsAlong (state Nat) tree (countingCalculator.depthLimit + 1) 0 [5, 9]
      failureCause 0 3 ∧
    tree.Descends 0 [5, 9] := by
  obtain ⟨tree, h, hcheck⟩ : ∃ tree, Tree.read failureSource defaultOperators none = .ok tree ∧
      decide ((tree.entity 1).content = .expression 0 0 ∧
        EvalError.endsIn
          (EvalError.layer tree 5 (some tree.namedText) (failureCause.within tree [9]))
          ((state Nat).outcome (countingCalculator.valueOf tree 1) 0).1 ∧
        ((state Nat).outcome (countingCalculator.valueOf tree 1) 0).2 = 3 ∧
        [5, 9].map (fun e => (tree.element e).text) = ["f", "fail"] ∧
        0 < tree.elements.size ∧ (∀ y < tree.elements.size, tree.site 5 = tree.site y → 5 = y) ∧
        ∀ y < tree.elements.size, tree.site 9 = tree.site y → 9 = y) :=
    Tree.exists_of_any
      (p := fun tree => decide ((tree.entity 1).content = _ ∧ _ ∧ _ ∧ _ ∧ _ ∧ _ ∧ _))
      (by decide +kernel)
  obtain ⟨hcontent, hends, hworld, htexts, hroot, hfive, hnine⟩ := of_decide_eq_true hcheck
  have hfails : (state Nat).Fails (countingCalculator.valueOf tree 1) 0
      (EvalError.layer tree 5 (some tree.namedText) (failureCause.within tree [9])) 3 :=
    Prod.ext (EvalError.eq_of_endsIn hends) hworld
  obtain ⟨top, path, cause, heq, hcause, halong, hdescends, -⟩ :=
    countingCalculator.valueOf_fails h hcontent hfails
  -- the layers tell which elements are on the path
  have hlt : ∀ y ∈ top :: path, y < tree.elements.size := fun y hy =>
    hdescends.lt (Tree.wellFormed_of_read h) hroot hy
  obtain ⟨hkind, -, hposition, -, -, hinner⟩ := EvalError.element.inj heq
  have hcause' : failureCause.IsCause := rfl
  obtain ⟨rfl, hpath⟩ := EvalError.within_inj hcause' hcause hinner
  obtain rfl := hfive top (hlt top List.mem_cons_self) (Prod.ext hkind hposition)
  obtain ⟨y, rfl, hsite⟩ := List.map_eq_singleton_iff.mp hpath.symm
  obtain rfl := hnine y (hlt y (by simp)) hsite.symm
  exact ⟨tree, h, hcontent, hfails, htexts, halong, hdescends⟩

end Calculator

end Formulary

import Mathlib.Order.ConditionallyCompleteLattice.Basic
import Mathlib.Order.Lattice.Nat
import Formulary.Proofs.Calculator.Progress
import Formulary.Proofs.Tree.Positions

/-!
# The limit on nested arguments

The limit of a calculator cuts off evaluations that go too deep, and does nothing else.  Only
arguments with something in them count.

* `Tree.Nests`: how deep arguments are nested below an element.
* `Tree.WellFormed.nests_succ_iff`: a row nests one level deeper than the arguments of its calls.
* `Calculator.evaluate_limitDepth`, `Calculator.raises_evaluate`: rows that do not go too deep.
* `Calculator.LeadsTo`: what is evaluated before the element that goes too deep.
* `Calculator.valueOf_limitDepth`: all limits from the depth of an expression on give its value, and
  all smaller ones end in an error.
-/

namespace Formulary

variable {m : Type → Type} {tree : Tree} {ops : List String}

/-! ## Depth -/

namespace Tree

/-- An argument with something in it. -/
def IsWrapper (tree : Tree) (id : ElementId) : Prop :=
  (tree.element id).kind = .argument ∧ (tree.element id).children ≠ #[]

/-- A path down from an element goes through so many arguments with something in them. -/
inductive Nests (tree : Tree) : Nat → ElementId → Prop
  | here {id : ElementId} : Nests tree 0 id
  | argument {n : Nat} {id child : ElementId} : child ∈ (tree.element id).children →
      tree.IsWrapper child → Nests tree n child → Nests tree (n + 1) id
  | child {n : Nat} {id child : ElementId} : child ∈ (tree.element id).children →
      ¬tree.IsWrapper child → Nests tree n child → Nests tree n id

variable {n k : Nat} {id row : ElementId}

theorem Nests.of_le (h : tree.Nests n id) (hle : k ≤ n) : tree.Nests k id := by
  induction h generalizing k with
  | here =>
    rw [Nat.le_zero.mp hle]
    exact .here
  | argument hchild hwrapper _ ih =>
    cases k with
    | zero => exact .here
    | succ k => exact .argument hchild hwrapper (ih (Nat.le_of_succ_le_succ hle))
  | child hchild hwrapper _ ih => exact .child hchild hwrapper (ih hle)

theorem Nests.children_ne (h : tree.Nests (n + 1) id) : (tree.element id).children ≠ #[] := by
  cases h with
  | argument hchild | child hchild => exact Array.ne_empty_of_mem hchild

/-- Elements are stored behind those that they are under, so that no path is longer than the
table. -/
theorem Nests.add_lt {id : Nat} (hlinked : tree.Linked) (h : tree.Nests n id)
    (hid : id < tree.elements.size) : id + n < tree.elements.size := by
  induction h with
  | here => exact hid
  | @argument n id child hchild _ _ ih =>
    obtain ⟨hlt, hstored⟩ :=
      hlinked.elements.stored id hid child (Array.mem_toList_iff.mpr hchild)
    have hdeep := ih hstored
    omega
  | @child n id child hchild _ _ ih =>
    obtain ⟨hlt, hstored⟩ :=
      hlinked.elements.stored id hid child (Array.mem_toList_iff.mpr hchild)
    have hdeep := ih hstored
    omega

theorem exists_isGreatest_nests (hlinked : tree.Linked) (hid : id < tree.elements.size) :
    ∃ depth, IsGreatest {n | tree.Nests n id} depth := by
  have hbounded : BddAbove {n | tree.Nests n id} :=
    ⟨tree.elements.size, fun n hn => (Nat.le_add_left n id).trans (hn.add_lt hlinked hid).le⟩
  exact ⟨_, Nat.sSup_mem ⟨0, .here⟩ hbounded, fun n hn => le_csSup hbounded hn⟩

/-- A row nests one level deeper than the arguments of its calls: parentheses, and arguments with
nothing in them, do not count. -/
theorem WellFormed.nests_succ_iff (hfits : tree.WellFormed ops) (c : Calculator m)
    (hlt : row < tree.elements.size) (hrow : tree.HasRow row) : tree.Nests (n + 1) row ↔
      ∃ id ∈ c.postfixOrder tree row, ∃ a ∈ Calculator.arguments tree id, tree.Nests n a := by
  obtain ⟨op, -, horder, -, hmem⟩ := c.exists_operation_once hfits hlt hrow
  rw [← horder] at hmem
  constructor
  · intro h
    -- the row consists of elements that yield values, of operators and of parentheses
    have hvalue : ∀ id ∈ (tree.element row).children, (tree.element id).kind ≠ .symbol →
        tree.IsLeafOperand id ∨ tree.IsOperator id := fun id hid hkind =>
      (c.of_mem_postfixOrder hfits hlt hrow ((hmem id).mpr ⟨hid, hkind⟩)).2.1
    cases h with
    | @argument _ _ a ha hwrapper h =>
      have hkind := hvalue a ha (by rw [hwrapper.1]; decide)
      rcases hkind with (hkind | hkind | hkind | hkind) | hkind
      all_goals
        have hkind : (tree.element a).kind = _ := hkind
        rw [hwrapper.1] at hkind
        cases hkind
    | @child _ _ id hid hwrapper h =>
      have hid' := (hfits.elements row hlt).inside id hid
      by_cases hkind : (tree.element id).kind = .symbol
      · have hempty := (hfits.elements id hid').kind
        rw [KindFits, hkind] at hempty
        exact absurd hempty.2 h.children_ne
      · refine ⟨id, (hmem id).mpr ⟨hid, hkind⟩, ?_⟩
        cases h with
        | @argument _ _ a ha hwrapper h =>
          exact ⟨a, Calculator.mem_arguments.mpr ⟨ha, hwrapper.2⟩, h⟩
        | @child _ _ a ha hwrapper h =>
          have hargument := (hfits.kind_of_mem_children hid' (hvalue id hid hkind) ha).2
          exact absurd ⟨hargument, h.children_ne⟩ hwrapper
  · rintro ⟨id, hid, a, ha, h⟩
    obtain ⟨hchild, hvalue, -⟩ := c.of_mem_postfixOrder hfits hlt hrow hid
    obtain ⟨ha, hne⟩ := Calculator.mem_arguments.mp ha
    have hkind := hfits.kind_of_mem_children ((hfits.elements row hlt).inside id hchild) hvalue ha
    have hwrapper : ¬tree.IsWrapper id := fun hwrapper => by
      rw [IsWrapper, hkind.1] at hwrapper
      cases hwrapper.1
    exact .child hchild hwrapper (.argument ha ⟨hkind.2, hne⟩ h)

end Tree

def EvalError.Shallow (e : EvalError) : Prop := ∀ n, e.rootCause ≠ .tooDeep n

theorem EvalError.shallow_ofMembers : OfMembers Shallow where
  unknownLibrary _ n h := by cases h
  noMember _ _ _ n h := by cases h
  memberFailed _ _ _ _ n h := by cases h

theorem EvalError.shallow_unbalanced (values : Nat) : Shallow (.unbalanced values) := fun n h => by
  cases h

namespace Calculator

variable [Monad m] [LawfulMonad m] (hfits : tree.WellFormed ops) (c : Calculator m)

/-! ## Rows within the limit -/

include hfits

/-- A row that does not go too deep has the same value with any larger limit. -/
theorem evaluate_limitDepth {limit larger : Nat} (room : Nat) : ∀ {room' : Nat} {row : ElementId},
    row < tree.elements.size → tree.HasRow row → ¬tree.Nests room row → room ≤ room' →
      (c.limitDepth larger).evaluate tree room' row =
        (c.limitDepth limit).evaluate tree room row := by
  induction room with
  | zero => exact fun _ _ h _ => absurd .here h
  | succ room ih =>
    intro room' row hlt hrow hshallow hle
    obtain ⟨room', rfl⟩ := Nat.exists_eq_add_of_le' (Nat.zero_lt_of_lt hle)
    have hagree : ∀ e, (c.limitDepth limit).AgreeOn (c.limitDepth larger) e := fun e =>
      ⟨fun _ => rfl, fun _ _ _ => rfl, fun _ => rfl, fun _ _ => rfl⟩
    rw [evaluate, evaluate, postfixOrder_congr (.refl tree) fun e _ => hagree _]
    refine (run_alike (EvalError.blursTrees_id tree) (fun id hid stack => ?_) []).eq.symm
    obtain ⟨-, hvalue, hinside⟩ := of_mem_postfixOrder _ hfits hlt hrow hid
    refine step_alike (.refl tree) hvalue (hagree _) (fun a ha => ?_) stack
    -- an argument nests one level less than the row that it is in
    have ha' : ¬tree.Nests room a := fun h =>
      hshallow ((hfits.nests_succ_iff _ hlt hrow).mpr ⟨id, hid, a, ha, h⟩)
    rw [ih (hinside a ha).1 (hinside a ha).2 ha' (Nat.le_of_succ_le_succ hle)]
    exact .refl _ _

theorem raises_layered_step {room : Nat} {row id : ElementId} (hlt : row < tree.elements.size)
    (hrow : tree.HasRow row) (hid : id ∈ c.postfixOrder tree row)
    (hinside : ∀ a ∈ arguments tree id, Raises EvalError.Shallow (c.evaluate tree room a))
    (stack : List Value) :
    Raises EvalError.Shallow (layered tree id (c.step tree (c.evaluate tree room) id stack)) := by
  have hvalue := (c.of_mem_postfixOrder hfits hlt hrow hid).2.1
  exact (c.raises_step EvalError.shallow_ofMembers EvalError.shallow_unbalanced hvalue hinside
    stack).adapt fun _ h => h

theorem raises_evaluate (room : Nat) : ∀ {row : ElementId}, row < tree.elements.size →
    tree.HasRow row → ¬tree.Nests room row →
      Raises EvalError.Shallow (c.evaluate tree room row) := by
  induction room with
  | zero => exact fun _ _ h => absurd .here h
  | succ room ih =>
    intro row hlt hrow hshallow
    refine c.raises_run EvalError.shallow_unbalanced (fun id hid => ?_) []
    refine c.raises_layered_step hfits hlt hrow hid fun a ha => ?_
    have hargument := (c.of_mem_postfixOrder hfits hlt hrow hid).2.2 a ha
    exact ih hargument.1 hargument.2 fun h =>
      hshallow ((hfits.nests_succ_iff c hlt hrow).mpr ⟨id, hid, a, ha, h⟩)

omit hfits

/-! ## Rows that go too deep -/

/-- The evaluation of a row leads to an argument that is nested too deep: what is evaluated before
it, and the calls that it is in, the outermost first. -/
inductive LeadsTo (c : Calculator m) (tree : Tree) :
    Nat → ElementId → List ElementId → Evaluation m Unit → Prop
  | arrived {row : ElementId} : LeadsTo c tree 0 row [] (pure ())
  | inside {room : Nat} {row id a : ElementId} {before after earlier later : List ElementId}
      {path : List ElementId} {x : Evaluation m Unit} :
      c.postfixOrder tree row = before ++ id :: after →
      arguments tree id = earlier ++ a :: later → LeadsTo c tree room a path x →
      LeadsTo c tree (room + 1) row (id :: path) (do
        let _ ← c.stackAfter tree (c.evaluate tree room) before []
        layered tree id (do
          let _ ← earlier.mapM (c.evaluate tree room)
          x))

theorem exists_first {α : Type} {p : α → Prop} {l : List α} (h : ∃ x ∈ l, p x) :
    ∃ before x after, l = before ++ x :: after ∧ p x ∧ ∀ y ∈ before, ¬p y := by
  classical
  have hsome : (l.find? (p ·)).isSome := by
    rw [List.find?_isSome]
    simpa using h
  obtain ⟨x, hx⟩ := Option.isSome_iff_exists.mp hsome
  obtain ⟨hp, before, after, hl, hbefore⟩ := List.find?_eq_some_iff_append.mp hx
  exact ⟨before, x, after, hl, of_decide_eq_true hp, fun y hy => by simpa using hbefore y hy⟩

theorem failsAfter_step {inside : ElementId → Evaluation m Value} {id a : ElementId}
    {earlier later : List ElementId} {x : Evaluation m Unit} {e : EvalError}
    (hkind : (tree.element id).kind = .function)
    (harguments : arguments tree id = earlier ++ a :: later) (h : FailsAfter (inside a) x e)
    (stack : List Value) : FailsAfter (c.step tree inside id stack)
      (do let _ ← earlier.mapM inside; x) e := by
  have hstep : c.step tree inside id stack = (do
      let values ← (arguments tree id).mapM inside
      let v ← c.callMethod (tree.element id).text values
      return v.typed :: stack) := by simp only [step, hkind]
  rw [hstep, harguments]
  exact (h.mapM earlier later).bind _

/-- A row fails at the first element that does. -/
theorem failsAfter_run {inside : ElementId → Evaluation m Value} {before after : List ElementId}
    {id : ElementId} {x : Evaluation m Unit} {e : EvalError}
    (h : ∀ stack, FailsAfter (layered tree id (c.step tree inside id stack)) x e) :
    FailsAfter (c.run tree inside (before ++ id :: after) [])
      (do let _ ← c.stackAfter tree inside before []; x) e := by
  rw [c.run_append]
  exact FailsAfter.after (fun stack => (h stack).bind _) _

include hfits

/-- A row that goes too deep fails as soon as everything before the argument that does has been
evaluated, in the layers of the calls around it. -/
theorem exists_leadsTo (room : Nat) : ∀ {row : ElementId}, row < tree.elements.size →
    tree.HasRow row → tree.Nests room row → ∃ path earlier,
      c.LeadsTo tree room row path earlier ∧ Raises EvalError.Shallow earlier ∧
        FailsAfter (c.evaluate tree room row) earlier
          ((EvalError.tooDeep c.depthLimit).within tree path) := by
  induction room with
  | zero => exact fun _ _ _ => ⟨[], pure (), .arrived, raises_pure (), FailsAfter.throw _⟩
  | succ room ih =>
    intro row hlt hrow hdeep
    obtain ⟨before, id, after, horder, hfirst, hbefore⟩ :=
      exists_first ((hfits.nests_succ_iff c hlt hrow).mp hdeep)
    obtain ⟨earlier, a, later, harguments, ha, hearlier⟩ := exists_first hfirst
    have hid : id ∈ c.postfixOrder tree row := by rw [horder]; simp
    have hargument : a ∈ arguments tree id := by rw [harguments]; simp
    obtain ⟨hchild, hvalue, hrows⟩ := c.of_mem_postfixOrder hfits hlt hrow hid
    have hkind := (hfits.kind_of_mem_children ((hfits.elements row hlt).inside id hchild) hvalue
      (mem_arguments.mp hargument).1).1
    obtain ⟨path, x, hleads, hx, hfails⟩ := ih (hrows a hargument).1 (hrows a hargument).2 ha
    refine ⟨id :: path, _, .inside horder harguments hleads, ?_, ?_⟩
    · -- nothing before the first argument that goes too deep goes too deep
      refine raises_bind (c.raises_stackAfter (fun y hy => ?_) []) fun _ => ?_
      · have hy' : y ∈ c.postfixOrder tree row := by rw [horder]; simp [hy]
        refine c.raises_layered_step hfits hlt hrow hy' fun b hb => ?_
        have hrows := (c.of_mem_postfixOrder hfits hlt hrow hy').2.2 b hb
        exact c.raises_evaluate hfits room hrows.1 hrows.2 fun h => hbefore y hy ⟨b, hb, h⟩
      · refine (raises_bind (raises_mapM fun b hb => ?_) fun _ => hx).adapt fun _ h => h
        have hrows := hrows b (by rw [harguments]; simp [hb])
        exact c.raises_evaluate hfits room hrows.1 hrows.2 (hearlier b hb)
    · rw [evaluate, horder]
      exact c.failsAfter_run fun stack =>
        (c.failsAfter_step hkind harguments hfails stack).adapt (EvalError.layer tree id none)

omit hfits

/-! ## Expressions -/

/-- The limit on nested arguments only cuts off.  From the depth of an expression on, every limit
gives the same value with the same effects and the same errors, of which none says that arguments
are nested too deep.  With a smaller limit the expression has no value, and once the elements before
the first argument that is nested too deep have been evaluated, the error says so. -/
theorem valueOf_limitDepth {source : String} {filename : Option String}
    (h : Tree.read source ops filename = .ok tree) {id : EntityId} {root : ElementId} {parens : Nat}
    (hcontent : (tree.entity id).content = .expression root parens) :
    ∃ depth, IsGreatest {n | tree.Nests n root} depth ∧ ∀ limit,
      (depth ≤ limit → Raises EvalError.Shallow ((c.limitDepth limit).valueOf tree id) ∧
        ∀ larger, limit ≤ larger →
          (c.limitDepth larger).valueOf tree id = (c.limitDepth limit).valueOf tree id) ∧
      (limit < depth → NoValue ((c.limitDepth limit).valueOf tree id) ∧ ∃ path earlier,
        (c.limitDepth limit).LeadsTo tree (limit + 1) root path earlier ∧
        Raises EvalError.Shallow earlier ∧
        (c.limitDepth limit).valueOf tree id = (do
          earlier
          throw ((EvalError.tooDeep limit).within tree path)).adapt
            (EvalError.withSource tree.namedText)) := by
  have hfits := Tree.wellFormed_of_read h
  obtain ⟨hlt, hnode⟩ := hfits.root_of_content hcontent
  have hvalue : ∀ limit, (c.limitDepth limit).valueOf tree id =
      ((c.limitDepth limit).evaluate tree (limit + 1) root).adapt
        (EvalError.withSource tree.namedText) := fun limit => by
    rw [valueOf, hcontent]
    rfl
  obtain ⟨depth, hdepth⟩ := Tree.exists_isGreatest_nests (Tree.linked_of_read h) hlt
  refine ⟨depth, hdepth, fun limit => ⟨fun hle => ?_, fun hgt => ?_⟩⟩
  · have hshallow : ¬tree.Nests (limit + 1) root := fun hdeep => by
      have hle' := hdepth.2 hdeep
      omega
    refine ⟨?_, fun larger hlarger => ?_⟩
    · rw [hvalue]
      refine (raises_evaluate hfits _ _ hlt (.inl hnode) hshallow).adapt fun e he n => ?_
      rw [EvalError.rootCause_withSource]
      exact he n
    · rw [hvalue, hvalue, c.evaluate_limitDepth hfits _ hlt (.inl hnode) hshallow (by omega)]
  · obtain ⟨path, earlier, hleads, hearlier, hfails⟩ :=
      (c.limitDepth limit).exists_leadsTo hfits (limit + 1) hlt (.inl hnode) (hdepth.1.of_le hgt)
    refine ⟨?_, path, earlier, hleads, hearlier, ?_⟩
    · rw [hvalue]
      exact (hfails.adapt _).noValue
    · rw [hvalue]
      exact congrArg _ hfails

/-- Calls in a call, with arguments that have nothing in them and with parentheses. -/
def nestingSource : String := "#a{b=f(2,g((h()),k(1)));}"

/-- A calculator with methods of all names, which tell their names. -/
def namingCalculator : Calculator Id where
  libraries := [("system", Table.ofMembers [.otherMethods fun name _ => pure (.string name)])]
  operators := []
  depthLimit := standardDepthLimit

/-- Arguments are nested three levels deep, and with a limit of two levels the call of `k` fails. -/
theorem valueOf_limitDepth_calls : ∃ tree,
    Tree.read nestingSource defaultOperators none = .ok tree ∧
      (tree.entity 1).content = .expression 0 0 ∧ IsGreatest {n | tree.Nests n 0} 3 ∧
      (∀ limit, 3 ≤ limit →
        ((namingCalculator.limitDepth limit).valueOf tree 1).run.run.toOption.map Value.toText =
          some "f") ∧
      [1, 5, 12].map (fun e => (tree.element e).text) = ["f", "g", "k"] ∧
      (namingCalculator.limitDepth 2).valueOf tree 1 = throw
        (((EvalError.tooDeep 2).within tree [1, 5, 12]).withSource tree.namedText) := by
  obtain ⟨tree, h, hcheck⟩ : ∃ tree, Tree.read nestingSource defaultOperators none = .ok tree ∧
      decide ((tree.entity 1).content = .expression 0 0 ∧
        ((namingCalculator.limitDepth 3).valueOf tree 1).run.run.toOption.map Value.toText =
          some "f" ∧
        [1, 5, 12].map (fun e => (tree.element e).text) = ["f", "g", "k"] ∧
        EvalError.endsIn (((EvalError.tooDeep 2).within tree [1, 5, 12]).withSource tree.namedText)
          ((namingCalculator.limitDepth 2).valueOf tree 1).run.run) :=
    Tree.exists_of_any (p := fun tree => decide ((tree.entity 1).content = _ ∧ _ ∧ _ ∧ _))
      (by decide +kernel)
  obtain ⟨hcontent, hthree, htexts, htwo⟩ := of_decide_eq_true hcheck
  obtain ⟨depth, hdepth, hlimits⟩ := namingCalculator.valueOf_limitDepth h hcontent
  have hfails := EvalError.eq_of_endsIn htwo
  have hlower : ¬depth ≤ 2 := fun hle => by
    rw [((hlimits 2).1 hle).2 3 (by decide), hfails] at hthree
    cases hthree
  have hupper : ¬3 < depth := fun hlt => by
    obtain ⟨⟨x, hx⟩, -⟩ := (hlimits 3).2 hlt
    rw [hx, ExceptT.run_map] at hthree
    cases hrun : x.run with
    | ok a => exact a.elim
    | error e =>
      rw [hrun] at hthree
      cases hthree
  obtain rfl : depth = 3 := by omega
  refine ⟨tree, h, hcontent, hdepth, fun limit hle => ?_, htexts, hfails⟩
  rw [((hlimits 3).1 (Nat.le_refl 3)).2 limit hle]
  exact hthree

end Calculator

end Formulary

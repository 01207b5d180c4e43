import Formulary.Proofs.Calculator.Congruence
import Formulary.Proofs.Tree.Positions

/-!
# What a registration changes

An operator that is registered matters only to the expressions that it occurs in, and a library only
to those that call for it.  One priority can reorder a whole row, so that the rows are compared
before anything is evaluated.

* `Tree.expression_of_below`: what is below the root node of an expression belongs to it.
* `Calculator.libraryOf?`: the library that an element calls for.
* `Calculator.agreeOn_bindOperator`, `Calculator.agreeOn_install`: what a registration leaves alone.
* `Calculator.valueOf_registration`: the values that a registration leaves alone.
-/

namespace Formulary

variable {m : Type → Type} {tree : Tree} {ops : List String}

theorem Tree.expression_of_below (hlinked : tree.Linked) (hfits : tree.WellFormed ops)
    {id : EntityId} {root e : ElementId} (hroot : root ∈ tree.rootNode? id)
    (he : tree.elementLinks.Below root e) :
    e < tree.elements.size ∧ (tree.element e).expression = id := by
  induction he with
  | top =>
    refine ⟨?_, (hlinked.rootNodes id root hroot).2⟩
    rw [rootNode?] at hroot
    split at hroot
    · next root' parens hcontent =>
      cases hroot
      exact (hfits.root_of_content hcontent).1
    · cases hroot
  | @child i c _ hc ih =>
    refine ⟨(hlinked.elements.stored i ih.1 c hc).2, ?_⟩
    rw [← ih.2]
    exact (hlinked.owned i ih.1).children c (Array.mem_toList_iff.mp hc)

namespace Calculator

/-- The library that an element calls for: that of a name up to its first point, the default one
for a name without a point, and the one that an operator belongs to. -/
def libraryOf? (c : Calculator m) (e : Element) : Option String :=
  match e.kind with
  | .identifier | .function => some (splitName e.text).1
  | .operator => some (c.operatorLibrary e.text)
  | .number | .string | .symbol | .argument | .node => none

variable (c : Calculator m)

theorem operator?_bindOperator {symbol symbol' : String} (h : symbol' ≠ symbol) (library : String)
    (priority : Int) :
    (c.bindOperator symbol library priority).operator? symbol' = c.operator? symbol' := by
  rw [operator?, bindOperator, List.lookup_cons, beq_false_of_ne h]
  rfl

theorem library?_install {name name' : String} (h : name' ≠ name) (table : Table m) :
    (c.install name table).library? name' = c.library? name' := by
  rw [library?, install, List.lookup_cons, beq_false_of_ne h]
  rfl

variable [Monad m]

/-- An operator that is registered matters to itself alone. -/
theorem agreeOn_bindOperator {symbol : String} {e : Element}
    (h : e.kind = .operator → e.text ≠ symbol) (library : String) (priority : Int) :
    c.AgreeOn (c.bindOperator symbol library priority) e where
  priority hkind := by rw [Calculator.priority, c.operator?_bindOperator (h hkind)]; rfl
  operator hkind x y := by
    rw [applyOperator, operatorLibrary, c.operator?_bindOperator (h hkind)]
    rfl
  identifier _ := rfl
  method _ _ := rfl

/-- A library that is registered matters to what calls for it alone. -/
theorem agreeOn_install {name : String} {e : Element} (h : c.libraryOf? e ≠ some name)
    (table : Table m) : c.AgreeOn (c.install name table) e where
  priority _ := rfl
  operator hkind x y := by
    simp only [libraryOf?, hkind, ne_eq, Option.some.injEq] at h
    have hlibrary : (c.install name table).operatorLibrary e.text = c.operatorLibrary e.text := rfl
    simp only [applyOperator, hlibrary, theLibrary, c.library?_install h]
  identifier hkind := by
    simp only [libraryOf?, hkind, ne_eq, Option.some.injEq] at h
    simp only [readVariable, theLibrary, c.library?_install h]
  method hkind values := by
    simp only [libraryOf?, hkind, ne_eq, Option.some.injEq] at h
    simp only [callMethod, theLibrary, c.library?_install h]

variable [LawfulMonad m]

variable {source : String} {filename : Option String}

theorem valueOf_eq_of_agreeOn {c c' : Calculator m}
    (h : Tree.read source ops filename = .ok tree) {id : EntityId}
    (hlimit : c'.depthLimit = c.depthLimit)
    (hagree : ∀ e < tree.elements.size, (tree.element e).expression = id →
      c.AgreeOn c' (tree.element e)) :
    c'.valueOf tree id = c.valueOf tree id := by
  have hfits := Tree.wellFormed_of_read h
  have hlinked := Tree.linked_of_read h
  have hbelow : ∀ root ∈ tree.rootNode? id, ∀ e, tree.elementLinks.Below root e →
      c.AgreeOn c' (tree.element e) := by
    intro root hroot e he
    obtain ⟨hlt, hexpression⟩ := Tree.expression_of_below hlinked hfits hroot he
    exact hagree e hlt hexpression
  have halike := valueOf_alike hfits (.refl tree) (.refl tree) (EvalError.blursTrees_id tree) hlimit
    hbelow
  exact halike.eq.symm

/-- The value of an expression, with its effects and its errors, does not depend on an operator that
does not occur in it, nor on a library that none of its elements calls for. -/
theorem valueOf_registration (h : Tree.read source ops filename = .ok tree) (id : EntityId) :
    (∀ (symbol library : String) (priority : Int),
      (∀ e < tree.elements.size, (tree.element e).expression = id →
        (tree.element e).kind = .operator → (tree.element e).text ≠ symbol) →
      (c.bindOperator symbol library priority).valueOf tree id = c.valueOf tree id) ∧
    ∀ (name : String) (table : Table m),
      (∀ e < tree.elements.size, (tree.element e).expression = id →
        c.libraryOf? (tree.element e) ≠ some name) →
      (c.install name table).valueOf tree id = c.valueOf tree id := by
  constructor
  · intro symbol library priority hunused
    exact valueOf_eq_of_agreeOn h rfl fun e hlt hexpression =>
      c.agreeOn_bindOperator (hunused e hlt hexpression) library priority
  · intro name table hunused
    exact valueOf_eq_of_agreeOn h rfl fun e hlt hexpression =>
      c.agreeOn_install (hunused e hlt hexpression) table

/-- Two expressions, of which the first has a qualified name and a call with a row in it, and the
second a further operator. -/
def registrationSource : String := "#a{b=1-k.x*f(2-3,n);c=4+k.y;}"

def arithmeticCalculator : Calculator Id where
  libraries := [("math", Table.ofMembers ArithmeticLibrary.members)]
  operators := standardOperators
  depthLimit := standardDepthLimit

theorem valueOf_registration_call : ∃ tree,
    Tree.read registrationSource defaultOperators none = .ok tree ∧
      (tree.entity 1).content.isExpression ∧
      (∀ e < tree.elements.size, (tree.element e).expression = 1 →
        (tree.element e).kind = .operator → (tree.element e).text ≠ "+") ∧
      (arithmeticCalculator.bindOperator "+" "k" (-7)).valueOf tree 1 =
        arithmeticCalculator.valueOf tree 1 ∧
      (∀ e < tree.elements.size, (tree.element e).expression = 1 →
        arithmeticCalculator.libraryOf? (tree.element e) ≠ some "a") ∧
      (arithmeticCalculator.install "a" Table.empty).valueOf tree 1 =
        arithmeticCalculator.valueOf tree 1 := by
  obtain ⟨tree, h, hcheck⟩ : ∃ tree,
      Tree.read registrationSource defaultOperators none = .ok tree ∧
        decide ((tree.entity 1).content.isExpression ∧
          (∀ e < tree.elements.size, (tree.element e).expression = 1 →
            (tree.element e).kind = .operator → (tree.element e).text ≠ "+") ∧
          ∀ e < tree.elements.size, (tree.element e).expression = 1 →
            arithmeticCalculator.libraryOf? (tree.element e) ≠ some "a") :=
    Tree.exists_of_any (p := fun tree => decide ((tree.entity 1).content.isExpression ∧ _ ∧ _))
      (by decide +kernel)
  obtain ⟨hexpression, hoperator, hlibrary⟩ := of_decide_eq_true hcheck
  obtain ⟨hbind, hinstall⟩ := arithmeticCalculator.valueOf_registration h 1
  exact ⟨tree, h, hexpression, hoperator, hbind "+" "k" (-7) hoperator, hlibrary,
    hinstall "a" Table.empty hlibrary⟩

end Calculator

end Formulary

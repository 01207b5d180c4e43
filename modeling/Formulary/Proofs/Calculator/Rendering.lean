import Formulary.Proofs.Calculator.Congruence
import Formulary.Proofs.Layout.Unambiguous
import Formulary.Proofs.Tree.Lines

/-!
# What the rendering of a tree says

Trees that are shown alike have the same nodes, apart from their positions, and are evaluated alike.

* `Tree.tables_of_render`: the rendering determines both tables.
* `EvalError.unplaced`: an error without the places of its layers.
* `Calculator.valueAt_of_render`: trees that are shown alike are evaluated alike.
-/

namespace Formulary

variable {source source' : String} {ops ops' : List String} {filename filename' : Option String}
  {tree tree' : Tree}

/-! ## Tables -/

namespace Tree

/-- Trees that were read and are shown alike have the same tables. -/
theorem tables_of_render (h : Tree.read source ops filename = .ok tree)
    (h' : Tree.read source' ops' filename' = .ok tree') (hrender : tree.render = tree'.render) :
    tree.plainEntities = tree'.plainEntities ∧ tree.plainElements = tree'.plainElements := by
  obtain ⟨-, d, -, -, -, hvalid, hholds⟩ := Tree.read_nested h
  obtain ⟨-, d', -, -, -, hvalid', hholds'⟩ := Tree.read_nested h'
  have hnamed := Document.named hvalid
  have hnamed' := Document.named hvalid'
  rw [hholds.render hnamed, hholds'.render hnamed'] at hrender
  have houtline := EntityOutline.eq_of_join hnamed hnamed' hrender
  rw [← houtline] at hholds'
  exact ⟨hholds.1.trans hholds'.1.symm, hholds.2.trans hholds'.2.symm⟩

theorem unplaced_element (tree : Tree) (id : ElementId) :
    (tree.element id).unplaced = (tree.plainElements[id]?).getD default := by
  rw [element, plainElements, Array.getD_eq_getD_getElem?, List.getElem?_map, Array.getElem?_toList]
  cases tree.elements[id]? <;> rfl

theorem unplaced_entity (tree : Tree) (id : EntityId) :
    (tree.entity id).unplaced = (tree.plainEntities[id]?).getD default := by
  rw [entity, plainEntities, Array.getD_eq_getD_getElem?, List.getElem?_map, Array.getElem?_toList]
  cases tree.entities[id]? <;> rfl

end Tree

/-! ## Errors -/

namespace EvalError

/-- An error without the places of its layers, and without the text. -/
def unplaced : EvalError → EvalError
  | element kind text _ _ _ inner => element kind text default default none inner.unplaced
  | e => e

theorem unplaced_withSource (source : NamedText) (e : EvalError) :
    (e.withSource source).unplaced = e.unplaced := by
  cases e <;> rfl

theorem blursTrees_unplaced (h : tree.SameElements tree') :
    BlursTrees unplaced tree tree' where
  layer id := by
    refine ⟨element (tree.element id).kind (tree.element id).text default default none,
      fun e => ⟨rfl, ?_⟩⟩
    rw [← h.kind, ← h.text]
    rfl
  source := ⟨id, fun e => ⟨unplaced_withSource _ e, unplaced_withSource _ e⟩⟩

end EvalError

namespace Calculator

/-- Trees that were read and are shown alike are the same apart from positions, the name of the file
and the text.  The expression at any path has the same value in both, with the same effects, or
errors that differ in positions and text only. -/
theorem valueAt_of_render (h : Tree.read source ops filename = .ok tree)
    (h' : Tree.read source' ops' filename' = .ok tree') (hrender : tree.render = tree'.render) :
    tree.plainEntities = tree'.plainEntities ∧ tree.plainElements = tree'.plainElements ∧
      ∀ {m : Type → Type} [Monad m] [LawfulMonad m] (c : Calculator m) (path : String),
        Alike EvalError.unplaced (c.valueAt tree path) (c.valueAt tree' path) := by
  obtain ⟨hentities, helements⟩ := Tree.tables_of_render h h' hrender
  refine ⟨hentities, helements, fun c path => ?_⟩
  have hsame : tree.SameElements tree' := fun id => by
    rw [Tree.unplaced_element, Tree.unplaced_element, helements]
  have hsame' : tree.SameEntities tree' := fun id => by
    rw [Tree.unplaced_entity, Tree.unplaced_entity, hentities]
  rw [valueAt, valueAt, hsame'.find?]
  cases tree.find? path with
  | none => exact .refl _ _
  | some id =>
    exact valueOf_alike (Tree.wellFormed_of_read h) hsame hsame'
      (EvalError.blursTrees_unplaced hsame) rfl fun _ _ e _ => .refl c (tree.element e)

/-- A text with comments and blanks, and one without them. -/
def spaciousSource : String := "# a /* title */ \x7b\n  b = f ( 1 , \"x\" ) ; // call\n\x7d\n"

def tightSource : String := "#a\x7bb=f(1,\"x\");\x7d"

def callShown : String :=
  "SECTION 'a' \x7b\n  b = EXPRESSION\n    FUNCTION 'f'\n      ARGUMENT ''\n        NUMBER '1'\n" ++
    "      ARGUMENT ''\n        STRING 'x'\n\x7d\n"

theorem valueAt_of_render_call : ∃ tree tree',
    Tree.read spaciousSource defaultOperators none = .ok tree ∧
      Tree.read tightSource ["+"] (some "tight") = .ok tree' ∧ tree.render = tree'.render ∧
      tree.plainEntities = tree'.plainEntities ∧ tree.plainElements = tree'.plainElements ∧
      ∀ {m : Type → Type} [Monad m] [LawfulMonad m] (c : Calculator m) (path : String),
        Alike EvalError.unplaced (c.valueAt tree path) (c.valueAt tree' path) := by
  obtain ⟨tree, h, hshown⟩ : ∃ tree, Tree.read spaciousSource defaultOperators none = .ok tree ∧
      tree.render == callShown :=
    Tree.exists_of_any (p := fun tree => tree.render == callShown) (by decide +kernel)
  obtain ⟨tree', h', hshown'⟩ : ∃ tree, Tree.read tightSource ["+"] (some "tight") = .ok tree ∧
      tree.render == callShown :=
    Tree.exists_of_any (p := fun tree => tree.render == callShown) (by decide +kernel)
  have hrender : tree.render = tree'.render := (eq_of_beq hshown).trans (eq_of_beq hshown').symm
  exact ⟨tree, tree', h, h', hrender, valueAt_of_render h h' hrender⟩

end Calculator

end Formulary

import Formulary.Document.Basic

/-!
# Well-formed trees

What the nodes of a tree hold when it was read from a text.

* `Tree.FormsTerm`, `Tree.FormsRow`: elements that make up a term, and a row of terms.
* `Tree.ElementFits`, `Tree.EntityFits`: one element and one entity with what is under them.
* `Tree.WellFormed`: all of them.
-/

namespace Formulary

namespace Tree

/-! ## Rows -/

mutual

/-- Elements that make up a term: an operand, or a row in parentheses. -/
inductive FormsTerm (tree : Tree) : List ElementId → Prop where
  | number {id : ElementId} : (tree.element id).kind = .number → FormsTerm tree [id]
  | string {id : ElementId} : (tree.element id).kind = .string → FormsTerm tree [id]
  | identifier {id : ElementId} : (tree.element id).kind = .identifier → FormsTerm tree [id]
  | function {id : ElementId} : (tree.element id).kind = .function → FormsTerm tree [id]
  | paren {opening closing : ElementId} {ids : List ElementId} :
      (tree.element opening).kind = .symbol → (tree.element opening).text = "(" →
      FormsRow tree ids → (tree.element closing).kind = .symbol →
      (tree.element closing).text = ")" → FormsTerm tree (opening :: (ids ++ [closing]))

/-- Elements that make up a row of terms with operators between them. -/
inductive FormsRow (tree : Tree) : List ElementId → Prop where
  | term {ids : List ElementId} : FormsTerm tree ids → FormsRow tree ids
  | operate {ids ids' : List ElementId} {id : ElementId} : FormsRow tree ids →
      (tree.element id).kind = .operator → FormsTerm tree ids' → FormsRow tree (ids ++ id :: ids')

end

/-! ## Nodes -/

/-- A call has one or more arguments, and an argument without elements is the only one. -/
structure CallFits (tree : Tree) (call : Element) : Prop where
  children_ne : call.children ≠ #[]
  argument : ∀ a ∈ call.children, (tree.element a).kind = .argument
  sole : ∀ a ∈ call.children, (tree.element a).children = #[] → call.children = #[a]

def KindFits (ops : List String) (tree : Tree) (e : Element) : Prop :=
  match e.kind with
  | .node => e.text = "" ∧ tree.FormsRow e.children.toList
  | .argument => e.text = "" ∧ (e.children = #[] ∨ tree.FormsRow e.children.toList)
  | .function => isName e.text.toList ∧ tree.CallFits e
  | .number => isNumber e.text.toList ∧ e.children = #[]
  | .identifier => isName e.text.toList ∧ e.children = #[]
  | .operator => ops.contains e.text ∧ e.children = #[]
  | .symbol => (e.text = "(" ∨ e.text = ")") ∧ e.children = #[]
  | .string => e.children = #[]

/-- An element with what is under it, all of it in the table, in the order of creation and under no
other element. -/
structure ElementFits (ops : List String) (tree : Tree) (id : ElementId) : Prop where
  inside : ∀ c ∈ (tree.element id).children, c < tree.elements.size
  ordered : (tree.element id).children.toList.Pairwise (· < ·)
  parent : ∀ c ∈ (tree.element id).children, (tree.element c).parent = some id
  kind : tree.KindFits ops (tree.element id)

/-- What an entity holds: named members, nameless items, or a row under a root node. -/
def ContentFits (tree : Tree) : Content → Prop
  | .sect title members => (∃ text, title = some text ∧ isName text.toList) ∧
      ∀ m ∈ members, ∃ name, (tree.entity m).name = some name ∧ isName name.toList
  | .array items => ∀ i ∈ items, (tree.entity i).name = none
  | .expression root openParens =>
      root < tree.elements.size ∧ (tree.element root).kind = .node ∧ openParens = 0

structure EntityFits (tree : Tree) (id : EntityId) : Prop where
  inside : ∀ c ∈ (tree.entity id).content.children, c < tree.entities.size
  content : tree.ContentFits (tree.entity id).content

/-- A tree under a root section of which every node fits. -/
structure WellFormed (ops : List String) (tree : Tree) : Prop where
  root : Tree.root < tree.entities.size ∧ (tree.entity Tree.root).content.isSection
  entities : ∀ id < tree.entities.size, tree.EntityFits id
  elements : ∀ id < tree.elements.size, tree.ElementFits ops id

end Tree

end Formulary

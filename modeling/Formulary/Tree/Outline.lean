import Formulary.Tree.Render

/-!
# Outlines

The outline of a tree is what remains when the tables are forgotten: titles, names, texts and order,
without numbers and positions.

* `ElementOutline`, `EntityOutline`: outlines, nested like what they stand for.
* `EntityOutline.lines`: the lines of an outline, by recursion.
* `Tree.outline`: the outline of a tree.
-/

namespace Formulary

inductive ElementOutline where
  | mk (kind : ElementKind) (text : String) (children : List ElementOutline)

/-- A section, an array or an expression with its name and all it holds. -/
inductive EntityOutline where
  | sect (name title : Option String) (members : List EntityOutline)
  | array (name : Option String) (items : List EntityOutline)
  | expression (name : Option String) (row : List ElementOutline)

/-! ## Lines -/

mutual

/-- The lines of an element at a depth: its own, then those under it. -/
def ElementOutline.lines (depth : Nat) : ElementOutline → List String
  | .mk kind text children =>
    (Tree.indent depth ++ kind.label ++ " '" ++ Escape.text text ++ "'\n") ::
      rowLines (depth + 1) children

def ElementOutline.rowLines (depth : Nat) : List ElementOutline → List String
  | [] => []
  | e :: es => e.lines depth ++ rowLines depth es

end

namespace EntityOutline

def binding : Option String → String
  | some name => name ++ " = "
  | none => ""

mutual

/-- The lines of an entity at a depth: its own, then those of what it holds, then the line that
closes it. -/
def lines (depth : Nat) : EntityOutline → List String
  | .sect name title members =>
    (Tree.indent depth ++ binding name ++ "SECTION '" ++ title.getD "" ++ "' \x7b\n") ::
      (allLines (depth + 1) members ++ [Tree.indent depth ++ "\x7d\n"])
  | .array name items =>
    (Tree.indent depth ++ binding name ++ "ARRAY [\n") ::
      (allLines (depth + 1) items ++ [Tree.indent depth ++ "]\n"])
  | .expression name row =>
    (Tree.indent depth ++ binding name ++ "EXPRESSION\n") ::
      ElementOutline.rowLines (depth + 1) row

def allLines (depth : Nat) : List EntityOutline → List String
  | [] => []
  | e :: es => e.lines depth ++ allLines depth es

end

end EntityOutline

/-! ## Outlines of trees -/

namespace Tree

/-- The outline of an element, down to a number of levels. -/
def elementOutline (tree : Tree) : Nat → ElementId → ElementOutline
  | 0, id => .mk (tree.element id).kind (tree.element id).text []
  | levels + 1, id =>
    .mk (tree.element id).kind (tree.element id).text
      ((tree.element id).children.toList.map (tree.elementOutline levels))

def entityOutline (tree : Tree) : Nat → EntityId → EntityOutline
  | levels, id =>
    let e := tree.entity id
    match levels, e.content with
    | 0, .sect title _ => .sect e.name title []
    | levels + 1, .sect title members =>
      .sect e.name title (members.toList.map (tree.entityOutline levels))
    | 0, .array _ => .array e.name []
    | levels + 1, .array items => .array e.name (items.toList.map (tree.entityOutline levels))
    | _, .expression root _ =>
      .expression e.name
        ((tree.element root).children.toList.map (tree.elementOutline tree.elements.size))

/-- The outline of a tree.  No chain of nodes is longer than their number. -/
def outline (tree : Tree) : EntityOutline := tree.entityOutline tree.entities.size root

end Tree

end Formulary

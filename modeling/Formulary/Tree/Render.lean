import Formulary.Text.Escape
import Formulary.Tree.Basic

/-!
# Rendering a tree

A tree is shown one node a line, each before what it contains, two spaces deeper at every level; a
section or an array ends with a line that closes it.  The root node of an expression has no line of
its own.

The lines come from a list of pending tasks instead of recursion, so that no depth of nesting is
too deep.

* `Tree.Task.line`, `Tree.Task.inside`: the line of a task and the tasks that it leaves.
* `Tree.render`: the whole tree.
-/

namespace Formulary

def Content.heading : Content → String
  | .sect title _ => "SECTION '" ++ title.getD "" ++ "' \x7b"
  | .array _ => "ARRAY ["
  | .expression _ _ => "EXPRESSION"

namespace Tree

inductive Task where
  | entity (id : EntityId) (depth : Nat)
  | element (id : ElementId) (depth : Nat)
  | close (mark : String) (depth : Nat)
  deriving DecidableEq, Repr

/-- The number of spaces that are written at once. -/
def sliceWidth : Nat := 64

def spaces (width : Nat) : String :=
  if width = 0 then ""
  else
    let run := min width sliceWidth
    String.ofList (List.replicate run ' ') ++ spaces (width - run)
termination_by width
decreasing_by
  simp only [sliceWidth]
  omega

/-- Two spaces for every level. -/
def indent (depth : Nat) : String := spaces (2 * depth)

theorem toList_spaces (width : Nat) : (spaces width).toList = List.replicate width ' ' := by
  induction width using spaces.induct with
  | case1 => rw [spaces, if_pos rfl]; rfl
  | case2 width hwidth run ih =>
    have hrun : run + (width - run) = width := by omega
    rw [spaces, if_neg hwidth, String.toList_append, String.toList_ofList, ih,
      List.replicate_append_replicate, hrun]

@[simp] theorem toList_indent (depth : Nat) :
    (indent depth).toList = List.replicate (2 * depth) ' ' := toList_spaces _

def binding (e : Entity) : String :=
  match e.name with
  | some name => name ++ " = "
  | none => ""

def Task.line (tree : Tree) : Task → String
  | .entity id depth =>
    indent depth ++ binding (tree.entity id) ++ (tree.entity id).content.heading ++ "\n"
  | .element id depth =>
    indent depth ++ (tree.element id).kind.label ++ " '" ++ Escape.text (tree.element id).text
      ++ "'\n"
  | .close mark depth => indent depth ++ mark ++ "\n"

/-- What is left to show after the line of a task, before anything else. -/
def Task.inside (tree : Tree) : Task → List Task
  | .entity id depth =>
    match (tree.entity id).content with
    | .sect _ members =>
      members.toList.map (.entity · (depth + 1)) ++ [.close "\x7d" depth]
    | .array items => items.toList.map (.entity · (depth + 1)) ++ [.close "]" depth]
    | .expression root _ =>
      (tree.element root).children.toList.map (.element · (depth + 1))
  | .element id depth => (tree.element id).children.toList.map (.element · (depth + 1))
  | .close _ _ => []

/-- Shows pending tasks in order, for at most the given number of lines. -/
def renderTasks (tree : Tree) : Nat → List Task → String → String
  | 0, _, shown => shown
  | _, [], shown => shown
  | lines + 1, task :: tasks, shown =>
    renderTasks tree lines (task.inside tree ++ tasks) (shown ++ task.line tree)

/-- A bound on the lines of a tree: one for each node, and one to close each section or array. -/
def lineBound (tree : Tree) : Nat := 2 * tree.entities.size + tree.elements.size

def render (tree : Tree) : String := renderTasks tree tree.lineBound [.entity root 0] ""

end Tree

end Formulary

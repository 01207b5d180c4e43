import Formulary.Tree.Render

/-!
# Performing tasks

The rendering of a tree performs pending tasks in order, and what is inside a task becomes pending
before all others.  So the tasks are performed in pre-order: each one, then all that is inside it,
then those that come after it.

* `Tree.Performs`: the loop over the pending tasks, without a bound.
* `Tree.Preorder`: the recursion.
* `Tree.performs_iff_preorder`: both perform the same tasks.
* `Tree.Performs.renderTasks`: the rendering writes the lines of these tasks.
* `Tree.Preorder.length_performed`: how many tasks are performed.
-/

namespace Formulary

def Content.isContainer (content : Content) : Bool := content.isSection || content.isArray

namespace Tree

/-! ## Tasks -/

namespace Task

def depth : Task → Nat
  | entity _ depth | element _ depth | close _ depth => depth

def entity? : Task → Option EntityId
  | entity id _ => some id
  | _ => none

def element? : Task → Option ElementId
  | element id _ => some id
  | _ => none

def isClose : Task → Bool
  | close _ _ => true
  | _ => false

def opens (tree : Tree) : Task → Bool
  | entity id _ => (tree.entity id).content.isContainer
  | _ => false

end Task

variable {tree : Tree} {tasks tasks' performed performed' : List Task}

/-! ## The loop and the recursion -/

/-- The loop over pending tasks comes to its end after it has performed some tasks. -/
inductive Performs (tree : Tree) : List Task → List Task → Prop
  | done : Performs tree [] []
  | next {task : Task} {tasks performed : List Task} :
    Performs tree (task.inside tree ++ tasks) performed →
      Performs tree (task :: tasks) (task :: performed)

/-- The tasks that are performed for some tasks by recursion: each one before all that is inside
it. -/
inductive Preorder (tree : Tree) : List Task → List Task → Prop
  | nil : Preorder tree [] []
  | cons {task : Task} {tasks inside after : List Task} :
    Preorder tree (task.inside tree) inside → Preorder tree tasks after →
      Preorder tree (task :: tasks) (task :: (inside ++ after))

theorem Performs.append (h : tree.Performs tasks performed)
    (h' : tree.Performs tasks' performed') :
    tree.Performs (tasks ++ tasks') (performed ++ performed') := by
  induction h with
  | done => exact h'
  | next h ih =>
    rw [List.append_assoc] at ih
    exact .next ih

theorem Preorder.append (h : tree.Preorder tasks performed)
    (h' : tree.Preorder tasks' performed') :
    tree.Preorder (tasks ++ tasks') (performed ++ performed') := by
  induction h with
  | nil => exact h'
  | cons hinside _ _ ih =>
    rw [List.cons_append, List.cons_append, List.append_assoc]
    exact .cons hinside ih

/-- Tasks side by side are performed one after the other. -/
theorem Preorder.split (h : tree.Preorder (tasks ++ tasks') performed) :
    ∃ before after, performed = before ++ after ∧ tree.Preorder tasks before ∧
      tree.Preorder tasks' after := by
  induction tasks generalizing performed with
  | nil => exact ⟨[], performed, rfl, .nil, h⟩
  | cons task tasks ih =>
    cases h with
    | cons hinside hafter =>
      obtain ⟨before, after, rfl, hbefore, hafter⟩ := ih hafter
      exact ⟨_, after, by rw [List.cons_append, List.append_assoc], .cons hinside hbefore, hafter⟩

/-- The loop performs what the recursion performs. -/
theorem performs_iff_preorder : tree.Performs tasks performed ↔ tree.Preorder tasks performed := by
  constructor
  · intro h
    induction h with
    | done => exact .nil
    | next _ ih =>
      obtain ⟨inside, after, rfl, hinside, hafter⟩ := ih.split
      exact .cons hinside hafter
  · intro h
    induction h with
    | nil => exact .done
    | cons _ _ hinside hafter => exact .next (hinside.append hafter)

/-- Pending tasks that come to an end within the bound write the lines of all that is performed. -/
theorem Performs.renderTasks {bound : Nat} (h : tree.Performs tasks performed)
    (hle : performed.length ≤ bound) (shown : String) : tree.renderTasks bound tasks shown =
      (performed.map (Task.line tree)).foldl (· ++ ·) shown := by
  induction h generalizing bound shown with
  | done => cases bound <;> rfl
  | next h ih =>
    obtain ⟨k, rfl⟩ := Nat.exists_eq_add_of_le' (Nat.lt_of_lt_of_le (Nat.succ_pos _) hle)
    exact ih (Nat.le_of_succ_le_succ hle) _

/-! ## Numbers of tasks -/

/-- What is inside a task is closed once, if the task opens anything. -/
theorem countP_isClose_inside (task : Task) :
    (task.inside tree).countP Task.isClose = if task.opens tree then 1 else 0 := by
  have hentities : ∀ (ids : List EntityId) (depth : Nat),
      (ids.map (Task.entity · depth)).countP Task.isClose = 0 := fun ids depth => by
    simp [List.countP_eq_zero, Task.isClose]
  have helements : ∀ (ids : List ElementId) (depth : Nat),
      (ids.map (Task.element · depth)).countP Task.isClose = 0 := fun ids depth => by
    simp [List.countP_eq_zero, Task.isClose]
  cases task with
  | entity id depth =>
    rw [Task.inside, Task.opens]
    cases (tree.entity id).content with
    | sect | array =>
      simp only [List.countP_append, hentities]
      rfl
    | expression => exact helements _ _
  | element id depth => exact helements _ _
  | close => rfl

/-- Tasks close what was pending to be closed and what they open. -/
theorem Preorder.countP_isClose (h : tree.Preorder tasks performed) :
    performed.countP Task.isClose =
      tasks.countP Task.isClose + performed.countP (Task.opens tree) := by
  induction h with
  | nil => rfl
  | @cons task _ _ _ _ _ hinside hafter =>
    rw [countP_isClose_inside] at hinside
    simp only [List.countP_cons, List.countP_append, hinside, hafter]
    omega

theorem length_tasks (tasks : List Task) : tasks.length =
    (tasks.filterMap Task.entity?).length + (tasks.filterMap Task.element?).length +
      tasks.countP Task.isClose := by
  induction tasks with
  | nil => rfl
  | cons task tasks ih =>
    simp only [List.length_cons, List.filterMap_cons, List.countP_cons, ih]
    cases task <;> simp [Task.entity?, Task.element?, Task.isClose] <;> omega

theorem countP_opens (tasks : List Task) : tasks.countP (Task.opens tree) =
    (tasks.filterMap Task.entity?).countP fun id => (tree.entity id).content.isContainer := by
  rw [List.countP_filterMap]
  congr
  funext task
  cases task <;> rfl

/-- An entity with all that is inside it has a task for each node, and one to close each section
and array. -/
theorem Preorder.length_performed {id depth : Nat}
    (h : tree.Preorder [.entity id depth] performed) : performed.length =
      (performed.filterMap Task.entity?).length + (performed.filterMap Task.element?).length +
        (performed.filterMap Task.entity?).countP
          fun id => (tree.entity id).content.isContainer := by
  have hclose : performed.countP Task.isClose = performed.countP (Task.opens tree) :=
    h.countP_isClose.trans (Nat.zero_add _)
  rw [length_tasks, hclose, countP_opens]

end Tree

end Formulary

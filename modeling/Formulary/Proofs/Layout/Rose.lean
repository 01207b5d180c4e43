/-!
# Trees in a table

A tree with labelled nodes is laid out in a table node by node, each node before its children and
each child before the next one.  A row of the table holds a label, the places of the children and
the place of the parent.

A tree that grows at its right edge is a list of *frames*, the innermost node first: a frame is a
node that is still open, with its children that are complete.

* `Rose.cells`: the rows of a tree laid out from a place on.
* `Frame.cells`: the rows of the open nodes and of all they hold.
* `Frame.cells_open`: a new innermost node is one more row, and one more child of the node before.
* `Frame.cells_close`: completing the innermost node changes no row.
-/

namespace Formulary

inductive Rose (α : Type) where
  | node (label : α) (children : List (Rose α))

structure Cell (α : Type) where
  label : α
  children : List Nat
  parent : Option Nat

namespace Rose

variable {α : Type}

/-! ## Sizes and places -/

mutual

def size : Rose α → Nat
  | node _ ts => sizes ts + 1

def sizes : List (Rose α) → Nat
  | [] => 0
  | t :: ts => t.size + sizes ts

end

/-- The places of trees that are laid out one after the other. -/
def places (id : Nat) : List (Rose α) → List Nat
  | [] => []
  | t :: ts => id :: places (id + t.size) ts

@[simp] theorem sizes_nil : sizes ([] : List (Rose α)) = 0 := rfl

@[simp] theorem sizes_cons (t : Rose α) (ts : List (Rose α)) :
    sizes (t :: ts) = t.size + sizes ts := rfl

@[simp] theorem size_node (a : α) (ts : List (Rose α)) : (node a ts).size = sizes ts + 1 := rfl

@[simp] theorem sizes_append (ts us : List (Rose α)) : sizes (ts ++ us) = sizes ts + sizes us := by
  induction ts with
  | nil => simp
  | cons t ts ih => simp only [List.cons_append, sizes_cons, ih, Nat.add_assoc]

@[simp] theorem places_nil (id : Nat) : places id ([] : List (Rose α)) = [] := rfl

@[simp] theorem places_cons (id : Nat) (t : Rose α) (ts : List (Rose α)) :
    places id (t :: ts) = id :: places (id + t.size) ts := rfl

theorem places_append (id : Nat) (ts us : List (Rose α)) :
    places id (ts ++ us) = places id ts ++ places (id + sizes ts) us := by
  induction ts generalizing id with
  | nil => simp
  | cons t ts ih =>
    simp only [List.cons_append, places_cons, sizes_cons, ih, Nat.add_assoc]

/-! ## Rows -/

mutual

/-- The rows of a tree that is laid out from the place `id` on, under a parent. -/
def cells (parent : Option Nat) (id : Nat) : Rose α → List (Cell α)
  | node a ts => ⟨a, places (id + 1) ts, parent⟩ :: rowCells id (id + 1) ts

def rowCells (parent id : Nat) : List (Rose α) → List (Cell α)
  | [] => []
  | t :: ts => t.cells (some parent) id ++ rowCells parent (id + t.size) ts

end

theorem cells_node (parent : Option Nat) (id : Nat) (a : α) (ts : List (Rose α)) :
    (node a ts).cells parent id = ⟨a, places (id + 1) ts, parent⟩ :: rowCells id (id + 1) ts := rfl

@[simp] theorem rowCells_nil (parent id : Nat) : rowCells parent id ([] : List (Rose α)) = [] := rfl

@[simp] theorem rowCells_cons (parent id : Nat) (t : Rose α) (ts : List (Rose α)) :
    rowCells parent id (t :: ts) = t.cells (some parent) id ++ rowCells parent (id + t.size) ts :=
  rfl

theorem rowCells_append (parent id : Nat) (ts us : List (Rose α)) :
    rowCells parent id (ts ++ us) =
      rowCells parent id ts ++ rowCells parent (id + sizes ts) us := by
  induction ts generalizing id with
  | nil => simp
  | cons t ts ih =>
    simp only [List.cons_append, rowCells_cons, sizes_cons, ih, List.append_assoc, Nat.add_assoc]

mutual

@[simp] theorem length_cells (parent : Option Nat) (id : Nat) :
    ∀ t : Rose α, (t.cells parent id).length = t.size
  | node a ts => by rw [cells_node, List.length_cons, length_rowCells, size_node]

@[simp] theorem length_rowCells (parent id : Nat) :
    ∀ ts : List (Rose α), (rowCells parent id ts).length = sizes ts
  | [] => rfl
  | t :: ts => by
    rw [rowCells_cons, List.length_append, length_cells, length_rowCells, sizes_cons]

end

end Rose

/-! ## Open nodes -/

/-- A node that is still open, with its children that are complete. -/
structure Frame (α : Type) where
  label : α
  closed : List (Rose α)

namespace Frame

variable {α : Type}

/-- The place after all rows of some frames, the first of which is at `base`. -/
def next (base : Nat) : List (Frame α) → Nat
  | [] => base
  | f :: fs => next base fs + 1 + Rose.sizes f.closed

def top? (base : Nat) : List (Frame α) → Option Nat
  | [] => none
  | _ :: fs => some (next base fs)

/-- The rows of one frame inside others; `inner` is the place of an open child. -/
def block (base : Nat) (f : Frame α) (fs : List (Frame α)) (inner : List Nat) : List (Cell α) :=
  ⟨f.label, Rose.places (next base fs + 1) f.closed ++ inner, top? base fs⟩ ::
    Rose.rowCells (next base fs) (next base fs + 1) f.closed

/-- The rows of frames around an open node that is laid out after them. -/
def outer (base : Nat) : List (Frame α) → List (Cell α)
  | [] => []
  | f :: fs => outer base fs ++ block base f fs [next base (f :: fs)]

def cells (base : Nat) : List (Frame α) → List (Cell α)
  | [] => []
  | f :: fs => outer base fs ++ block base f fs []

@[simp] theorem next_nil (base : Nat) : next base ([] : List (Frame α)) = base := rfl

theorem next_cons (base : Nat) (f : Frame α) (fs : List (Frame α)) :
    next base (f :: fs) = next base fs + 1 + Rose.sizes f.closed := rfl

@[simp] theorem length_block (base : Nat) (f : Frame α) (fs : List (Frame α)) (inner : List Nat) :
    (block base f fs inner).length = Rose.sizes f.closed + 1 := by
  rw [block, List.length_cons, Rose.length_rowCells]

theorem length_outer (base : Nat) (fs : List (Frame α)) :
    base + (outer base fs).length = next base fs := by
  induction fs with
  | nil => rfl
  | cons f fs ih =>
    rw [outer, List.length_append, length_block, next_cons, ← ih]
    omega

theorem length_cells (base : Nat) (fs : List (Frame α)) :
    base + (cells base fs).length = next base fs := by
  cases fs with
  | nil => rfl
  | cons f fs =>
    rw [cells, List.length_append, length_block, next_cons, ← length_outer base fs]
    omega

theorem cells_single (base : Nat) (f : Frame α) :
    cells base [f] = (Rose.node f.label f.closed).cells none base := by
  simp [cells, outer, block, top?, Rose.cells_node]

/-- A new innermost node is one more row, and one more child of the node before. -/
theorem cells_open (base : Nat) (a : α) (f : Frame α) (fs : List (Frame α)) :
    cells base (⟨a, []⟩ :: f :: fs) =
      outer base fs ++ block base f fs [next base (f :: fs)] ++ [⟨a, [], some (next base fs)⟩] := by
  simp [cells, outer, block, top?]

/-- Completing the innermost node changes no row. -/
theorem cells_close (base : Nat) (f g : Frame α) (fs : List (Frame α)) :
    cells base (⟨g.label, g.closed ++ [.node f.label f.closed]⟩ :: fs) =
      cells base (f :: g :: fs) := by
  simp [cells, outer, block, top?, next_cons, Rose.places_append, Rose.rowCells_append,
    Rose.cells_node, List.append_assoc]

theorem cells_add (base : Nat) (a : α) (f : Frame α) (fs : List (Frame α)) :
    cells base (⟨f.label, f.closed ++ [.node a []]⟩ :: fs) =
      outer base fs ++ block base f fs [next base (f :: fs)] ++ [⟨a, [], some (next base fs)⟩] := by
  rw [cells_close base ⟨a, []⟩ f fs, cells_open]

theorem outer_at (base : Nat) (f : Frame α) (fs : List (Frame α)) :
    ∀ gs : List (Frame α), ∃ children after, outer base (gs ++ f :: fs) =
      outer base fs ++ ⟨f.label, children, top? base fs⟩ :: after
  | [] => ⟨_, _, rfl⟩
  | g :: gs => by
    obtain ⟨children, after, h⟩ := outer_at base f fs gs
    exact ⟨children, after ++ block base g (gs ++ f :: fs) [next base (g :: (gs ++ f :: fs))],
      by rw [List.cons_append, outer, h, List.append_assoc, List.cons_append]⟩

theorem cells_at (base : Nat) (f : Frame α) (fs gs : List (Frame α)) :
    ∃ children after, cells base (gs ++ f :: fs) =
      outer base fs ++ ⟨f.label, children, top? base fs⟩ :: after := by
  cases gs with
  | nil => exact ⟨_, _, rfl⟩
  | cons g gs =>
    obtain ⟨children, after, h⟩ := outer_at base f fs gs
    exact ⟨children, after ++ block base g (gs ++ f :: fs) [],
      by rw [List.cons_append, cells, h, List.append_assoc, List.cons_append]⟩

end Frame

end Formulary

import Formulary.Document.Basic
import Formulary.Proofs.Layout.Outline
import Formulary.Reader.State

/-!
# What is open around a reading

The state of a reading names the current entity and the current element by their places in the
tables, and counts what is open.  A *nest* says the same without places: the sections and arrays
that are still open, the innermost first, each with what is complete in it, and then perhaps the
rows and calls of an expression that are still open.

* `Nest`: what is open.
* `Nest.entities`, `Nest.elements`: the tables that belong to it.
* `Reader.Shows`: a state shows a nest.
-/

namespace Formulary

/-! ## Open entities -/

/-- A section or an array that is still open, with what is complete in it.  A section has no title
before its brace. -/
inductive OpenEntity where
  | sect (name title : Option String) (members : List EntityOutline)
  | array (name : Option String) (items : List EntityOutline)

namespace OpenEntity

def label : OpenEntity → EntityLabel
  | sect name title _ => .sect name title
  | array name _ => .array name

def closed : OpenEntity → List EntityOutline
  | sect _ _ members => members
  | array _ items => items

def add (e : OpenEntity) (o : EntityOutline) : OpenEntity :=
  match e with
  | sect name title members => sect name title (members ++ [o])
  | array name items => array name (items ++ [o])

def outline : OpenEntity → EntityOutline
  | sect name title members => .sect name title members
  | array name items => .array name items

def frame (e : OpenEntity) : Frame EntityLabel := ⟨e.label, EntityOutline.roses e.closed⟩

def isArray : OpenEntity → Bool
  | array _ _ => true
  | sect _ _ _ => false

def isTitled : OpenEntity → Bool
  | sect _ (some _) _ => true
  | _ => false

@[simp] theorem isArray_array (name : Option String) (items : List EntityOutline) :
    (array name items).isArray = true := rfl

@[simp] theorem isArray_sect (name title : Option String) (members : List EntityOutline) :
    (sect name title members).isArray = false := rfl

@[simp] theorem isTitled_array (name : Option String) (items : List EntityOutline) :
    (array name items).isTitled = false := rfl

@[simp] theorem isTitled_titled (name : Option String) (title : String)
    (members : List EntityOutline) : (sect name (some title) members).isTitled = true := rfl

@[simp] theorem isTitled_untitled (name : Option String) (members : List EntityOutline) :
    (sect name none members).isTitled = false := rfl

@[simp] theorem label_add (e : OpenEntity) (o : EntityOutline) : (e.add o).label = e.label := by
  cases e <;> rfl

@[simp] theorem closed_add (e : OpenEntity) (o : EntityOutline) :
    (e.add o).closed = e.closed ++ [o] := by
  cases e <;> rfl

@[simp] theorem isArray_add (e : OpenEntity) (o : EntityOutline) :
    (e.add o).isArray = e.isArray := by
  cases e <;> rfl

@[simp] theorem isTitled_add (e : OpenEntity) (o : EntityOutline) :
    (e.add o).isTitled = e.isTitled := by
  cases e with
  | sect name title members => cases title <;> rfl
  | array name items => rfl

theorem rose_outline (e : OpenEntity) :
    e.outline.rose = .node e.label (EntityOutline.roses e.closed) := by
  cases e <;> rfl

@[simp] theorem width_label (e : OpenEntity) : e.label.width = 0 := by
  cases e <;> rfl

@[simp] theorem elements_label (e : OpenEntity) (owner : EntityId) (first : ElementId) :
    e.label.elements owner first = [] := by
  cases e <;> rfl

end OpenEntity

/-! ## Open rows -/

/-- A row of elements that is still open, and how many of its own parentheses are. -/
structure OpenRow where
  row : List ElementOutline
  parens : Nat

structure OpenCall where
  name : String
  done : List (List ElementOutline)

/-- An expression that is still open: the innermost row, and the calls around it, each with the row
that it stands in. -/
structure OpenFormula where
  inner : OpenRow
  outer : List (OpenCall × OpenRow)

namespace OpenFormula

/-- The row of an expression is under its root node, that of an argument under its wrapper. -/
def rowKind : List (OpenCall × OpenRow) → ElementKind
  | [] => .node
  | _ :: _ => .argument

def wrapper (row : List ElementOutline) : ElementOutline := .mk .argument "" row

def callFrame (c : OpenCall) : Frame ElementLabel :=
  ⟨⟨.function, c.name, 0⟩, ElementOutline.roses (c.done.map wrapper)⟩

def rowFrame (kind : ElementKind) (parens : Nat) (r : OpenRow) : Frame ElementLabel :=
  ⟨⟨kind, "", parens⟩, ElementOutline.roses r.row⟩

/-- The frames around the innermost row.  The call that is open in a row counts as one of its
parentheses. -/
def outerFrames : List (OpenCall × OpenRow) → List (Frame ElementLabel)
  | [] => []
  | (c, r) :: outer => callFrame c :: rowFrame (rowKind outer) (r.parens + 1) r :: outerFrames outer

def frames (f : OpenFormula) : List (Frame ElementLabel) :=
  rowFrame (rowKind f.outer) f.inner.parens f.inner :: outerFrames f.outer

/-- The parentheses of some rows around an open call, those of the calls included. -/
def outerDepth : List (OpenCall × OpenRow) → Nat
  | [] => 0
  | (_, r) :: outer => r.parens + 1 + outerDepth outer

def depth (f : OpenFormula) : Nat := f.inner.parens + outerDepth f.outer

def add (f : OpenFormula) (row : List ElementOutline) : OpenFormula :=
  { f with inner := { f.inner with row := f.inner.row ++ row } }

def blank : OpenFormula := ⟨⟨[], 0⟩, []⟩

end OpenFormula

def OpenCall.outline (c : OpenCall) (row : List ElementOutline) : ElementOutline :=
  .mk .function c.name ((c.done ++ [row]).map OpenFormula.wrapper)

/-! ## Nests -/

/-- What is open around a reading: an entity inside others, or an expression inside entities; at the
end nothing is. -/
inductive Nest where
  | entity (inner : OpenEntity) (outer : List OpenEntity)
  | row (inner : OpenEntity) (outer : List OpenEntity) (name : Option String)
      (formula : OpenFormula)
  | done (root : EntityOutline)

namespace Nest

def entityFrames (es : List OpenEntity) : List (Frame EntityLabel) := es.map OpenEntity.frame

def outerCells (es : List OpenEntity) : List (Cell EntityLabel) := Frame.outer 0 (entityFrames es)

def place (es : List OpenEntity) : EntityId := Frame.next 0 (entityFrames es)

def first (es : List OpenEntity) : ElementId := widths (outerCells es)

def entities : Nest → List Entity
  | entity e es => entitiesOf 0 (Frame.cells 0 (entityFrames (e :: es)))
  | row e es name f => entitiesOf 0 (outerCells (e :: es)) ++
      [⟨name, some (place es), default, .expression (first (e :: es)) f.depth⟩]
  | done root => entitiesOf 0 (root.rose.cells none 0)

def elements : Nest → List Element
  | entity e es => elementsOf 0 0 (Frame.cells 0 (entityFrames (e :: es)))
  | row e es _ f => elementsOf 0 0 (outerCells (e :: es)) ++
      (Frame.cells (first (e :: es)) f.frames).map (Cell.element (place (e :: es)))
  | done root => elementsOf 0 0 (root.rose.cells none 0)

def current : Nest → EntityId
  | entity _ es => place es
  | row e es _ _ => place (e :: es)
  | done _ => 0

def element? : Nest → Option ElementId
  | row e es _ f => some (Frame.next (first (e :: es)) (OpenFormula.outerFrames f.outer))
  | _ => none

def opened : Nest → List OpenEntity
  | entity e es => e :: es
  | row e es _ _ => e :: es
  | done _ => []

theorem length_entities_place (es : List OpenEntity) :
    (entitiesOf 0 (outerCells es)).length = place es := by
  rw [length_entitiesOf, place, ← Frame.length_outer, Nat.zero_add, outerCells]

theorem length_elements_first (es : List OpenEntity) :
    (elementsOf 0 0 (outerCells es)).length = first es := length_elementsOf ..

end Nest

/-! ## States -/

/-- A state shows a nest: its tables are those of the nest, and its places and counts fit.  The
current element matters inside an expression only. -/
structure Reader.Shows (r : Reader) (n : Nest) : Prop where
  entities : r.tree.plainEntities = n.entities
  elements : r.tree.plainElements = n.elements
  current : r.current = n.current
  element : ∀ id, n.element? = some id → r.element = some id
  openArrays : r.openArrays = n.opened.countP OpenEntity.isArray
  openSections : r.openSections = n.opened.countP OpenEntity.isTitled

end Formulary

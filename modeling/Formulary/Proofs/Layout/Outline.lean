import Formulary.Proofs.Layout.Rose
import Formulary.Tree.Outline

/-!
# Outlines laid out in tables

An outline says what the two tables of a tree hold, apart from the positions: its entities are laid
out in the one, and the elements of its expressions in the other, in the same order.

* `Entity.unplaced`, `Element.unplaced`: the nodes of a tree without their positions.
* `EntityOutline.rose`, `ElementOutline.rose`: outlines as trees with labels.
* `entitiesOf`, `elementsOf`: both tables of some entities.
* `Tree.outline_of_tables`: the outline of a tree with the tables of an outline is that outline.
-/

namespace Formulary

def Entity.unplaced (e : Entity) : Entity := { e with position := default }

def Element.unplaced (e : Element) : Element := { e with position := default }

/-! ## Labels -/

/-- What an element is, apart from its neighbours. -/
structure ElementLabel where
  kind : ElementKind
  text : String
  openParens : Nat

/-- What an entity is, apart from the entities around and inside it. -/
inductive EntityLabel where
  | sect (name title : Option String)
  | array (name : Option String)
  | expression (name : Option String) (row : List ElementOutline)

def Cell.element (owner : EntityId) (c : Cell ElementLabel) : Element where
  kind := c.label.kind
  text := c.label.text
  children := c.children.toArray
  openParens := c.label.openParens
  parent := c.parent
  expression := owner
  position := default

/-- The entity of a row of a table; `root` is the root node of an expression. -/
def Cell.entity (root : ElementId) (c : Cell EntityLabel) : Entity :=
  match c.label with
  | .sect name title => ⟨name, c.parent, default, .sect title c.children.toArray⟩
  | .array name => ⟨name, c.parent, default, .array c.children.toArray⟩
  | .expression name _ => ⟨name, c.parent, default, .expression root 0⟩

/-! ## Outlines as trees -/

mutual

def ElementOutline.rose : ElementOutline → Rose ElementLabel
  | .mk kind text children => .node ⟨kind, text, 0⟩ (roses children)

def ElementOutline.roses : List ElementOutline → List (Rose ElementLabel)
  | [] => []
  | o :: os => o.rose :: roses os

end

def ElementOutline.rootRose (row : List ElementOutline) : Rose ElementLabel :=
  .node ⟨.node, "", 0⟩ (roses row)

mutual

def EntityOutline.rose : EntityOutline → Rose EntityLabel
  | .sect name title members => .node (.sect name title) (roses members)
  | .array name items => .node (.array name) (roses items)
  | .expression name row => .node (.expression name row) []

def EntityOutline.roses : List EntityOutline → List (Rose EntityLabel)
  | [] => []
  | o :: os => o.rose :: roses os

end

@[simp] theorem ElementOutline.roses_append (os ps : List ElementOutline) :
    roses (os ++ ps) = roses os ++ roses ps := by
  induction os with
  | nil => rfl
  | cons o os ih => rw [List.cons_append, roses, roses, ih, List.cons_append]

@[simp] theorem EntityOutline.roses_append (os ps : List EntityOutline) :
    roses (os ++ ps) = roses os ++ roses ps := by
  induction os with
  | nil => rfl
  | cons o os ih => rw [List.cons_append, roses, roses, ih, List.cons_append]

/-! ## Both tables -/

def EntityLabel.width : EntityLabel → Nat
  | .expression _ row => (ElementOutline.rootRose row).size
  | _ => 0

/-- The elements of an entity, laid out from the place `first` on. -/
def EntityLabel.elements (owner : EntityId) (first : ElementId) : EntityLabel → List Element
  | .expression _ row => ((ElementOutline.rootRose row).cells none first).map (Cell.element owner)
  | _ => []

/-- The entities of a table of which the elements are laid out from `first` on. -/
def entitiesOf (first : ElementId) : List (Cell EntityLabel) → List Entity
  | [] => []
  | c :: cs => c.entity first :: entitiesOf (first + c.label.width) cs

/-- The elements of entities, the first of which is at the place `owner`. -/
def elementsOf (owner : EntityId) (first : ElementId) : List (Cell EntityLabel) → List Element
  | [] => []
  | c :: cs => c.label.elements owner first ++ elementsOf (owner + 1) (first + c.label.width) cs

def widths : List (Cell EntityLabel) → Nat
  | [] => 0
  | c :: cs => c.label.width + widths cs

@[simp] theorem widths_append (cs ds : List (Cell EntityLabel)) :
    widths (cs ++ ds) = widths cs + widths ds := by
  induction cs with
  | nil => simp [widths]
  | cons c cs ih => simp only [List.cons_append, widths, ih, Nat.add_assoc]

theorem entitiesOf_append (first : ElementId) (cs ds : List (Cell EntityLabel)) :
    entitiesOf first (cs ++ ds) = entitiesOf first cs ++ entitiesOf (first + widths cs) ds := by
  induction cs generalizing first with
  | nil => simp [entitiesOf, widths]
  | cons c cs ih => simp only [List.cons_append, entitiesOf, widths, ih, Nat.add_assoc]

theorem elementsOf_append (owner : EntityId) (first : ElementId) (cs ds : List (Cell EntityLabel)) :
    elementsOf owner first (cs ++ ds) =
      elementsOf owner first cs ++ elementsOf (owner + cs.length) (first + widths cs) ds := by
  induction cs generalizing owner first with
  | nil => simp [elementsOf, widths]
  | cons c cs ih =>
    simp only [List.cons_append, elementsOf, widths, ih, List.length_cons, List.append_assoc]
    rw [Nat.add_assoc first, Nat.add_assoc owner, Nat.add_comm 1]

@[simp] theorem length_entitiesOf (first : ElementId) (cs : List (Cell EntityLabel)) :
    (entitiesOf first cs).length = cs.length := by
  induction cs generalizing first with
  | nil => rfl
  | cons c cs ih => simp [entitiesOf, ih]

@[simp] theorem EntityLabel.length_elements (owner : EntityId) (first : ElementId)
    (l : EntityLabel) : (l.elements owner first).length = l.width := by
  cases l <;> simp [EntityLabel.elements, EntityLabel.width]

@[simp] theorem length_elementsOf (owner : EntityId) (first : ElementId)
    (cs : List (Cell EntityLabel)) : (elementsOf owner first cs).length = widths cs := by
  induction cs generalizing owner first with
  | nil => rfl
  | cons c cs ih => simp [elementsOf, widths, ih]

/-! ## The outline of a tree with given tables -/

theorem getD_unplaced_of_eq {table : Array Element} {before after : List Element} {e : Element}
    (h : table.toList.map Element.unplaced = before ++ e :: after) :
    (table.getD before.length default).unplaced = e := by
  have hlt : before.length < table.size := by
    have := congrArg List.length h
    simp only [List.length_map, Array.length_toList, List.length_append, List.length_cons] at this
    omega
  have hget := congrArg (·[before.length]?) h
  simpa [hlt] using hget

namespace Tree

variable {tree : Tree}

def plainElements (tree : Tree) : List Element := tree.elements.toList.map Element.unplaced

def plainEntities (tree : Tree) : List Entity := tree.entities.toList.map Entity.unplaced

@[simp] theorem length_plainElements : tree.plainElements.length = tree.elements.size := by
  simp [plainElements]

@[simp] theorem length_plainEntities : tree.plainEntities.length = tree.entities.size := by
  simp [plainEntities]

theorem element_of_eq {before after : List Element} {e : Element}
    (h : tree.plainElements = before ++ e :: after) :
    (tree.element before.length).unplaced = e := getD_unplaced_of_eq h

theorem entity_of_eq {before after : List Entity} {e : Entity}
    (h : tree.plainEntities = before ++ e :: after) :
    (tree.entity before.length).unplaced = e := by
  have hlt : before.length < tree.entities.size := by
    have := congrArg List.length h
    simp only [length_plainEntities, List.length_append, List.length_cons] at this
    omega
  have hget := congrArg (·[before.length]?) h
  simpa [plainEntities, entity, hlt] using hget

/-! ### Elements -/

mutual

/-- An element that is laid out in the table of a tree shows the outline that it was laid out
from. -/
theorem elementOutline_of_cells : ∀ (o : ElementOutline) {before after : List Element}
    {parent : Option Nat} {owner : EntityId} {id n : Nat}, before.length = id →
    tree.plainElements = before ++ ((o.rose.cells parent id).map (Cell.element owner) ++ after) →
    o.rose.size ≤ n → tree.elementOutline n id = o
  | .mk kind text children, before, after, parent, owner, id, n, hid, h, hl => by
    rw [ElementOutline.rose, Rose.size_node] at hl
    obtain ⟨n, rfl⟩ : ∃ m, n = m + 1 := ⟨n - 1, by omega⟩
    rw [ElementOutline.rose, Rose.cells_node, List.map_cons, List.cons_append] at h
    have he := element_of_eq h
    rw [hid] at he
    have hk : (tree.element id).kind = kind := congrArg Element.kind he
    have ht : (tree.element id).text = text := congrArg Element.text he
    have hc : (tree.element id).children.toList =
        Rose.places (id + 1) (ElementOutline.roses children) :=
      congrArg (fun e => e.children.toList) he
    rw [List.append_cons] at h
    rw [elementOutline, hk, ht, hc, row_of_cells children (by simp [hid]) h (by omega)]

theorem row_of_cells : ∀ (os : List ElementOutline) {before after : List Element} {parent : Nat}
    {owner : EntityId} {id n : Nat}, before.length = id →
    tree.plainElements = before ++
      ((Rose.rowCells parent id (ElementOutline.roses os)).map (Cell.element owner) ++ after) →
    Rose.sizes (ElementOutline.roses os) ≤ n →
    (Rose.places id (ElementOutline.roses os)).map (tree.elementOutline n) = os
  | [], _, _, _, _, _, _, _, _, _ => rfl
  | o :: os, before, after, parent, owner, id, n, hid, h, hl => by
    rw [ElementOutline.roses, Rose.sizes_cons] at hl
    rw [ElementOutline.roses, Rose.rowCells_cons, List.map_append, List.append_assoc] at h
    have ho := elementOutline_of_cells o (n := n) hid h (by omega)
    rw [← List.append_assoc before] at h
    have hos := row_of_cells os (n := n) (by simp [hid]) h (by omega)
    rw [ElementOutline.roses, Rose.places_cons, List.map_cons, ho, hos]

end

theorem rootRow_of_cells {row : List ElementOutline} {before after : List Element}
    {owner : EntityId} {first n : Nat} (hid : before.length = first)
    (h : tree.plainElements = before ++
      (((ElementOutline.rootRose row).cells none first).map (Cell.element owner) ++ after))
    (hl : Rose.sizes (ElementOutline.roses row) ≤ n) :
    (tree.element first).children.toList.map (tree.elementOutline n) = row := by
  rw [ElementOutline.rootRose, Rose.cells_node, List.map_cons, List.cons_append] at h
  have he := element_of_eq h
  rw [hid] at he
  have hc : (tree.element first).children.toList =
      Rose.places (first + 1) (ElementOutline.roses row) :=
    congrArg (fun e => e.children.toList) he
  rw [List.append_cons] at h
  rw [hc]
  exact row_of_cells row (by simp [hid]) h hl

/-! ### Entities -/

theorem entityOutline_sect {id n : Nat} {title : Option String} {members : Array EntityId}
    (h : (tree.entity id).content = .sect title members) :
    tree.entityOutline (n + 1) id = .sect (tree.entity id).name title
      (members.toList.map (tree.entityOutline n)) := by
  rw [entityOutline.eq_def]
  simp only [h]

theorem entityOutline_array {id n : Nat} {items : Array EntityId}
    (h : (tree.entity id).content = .array items) :
    tree.entityOutline (n + 1) id = .array (tree.entity id).name
      (items.toList.map (tree.entityOutline n)) := by
  rw [entityOutline.eq_def]
  simp only [h]

theorem entityOutline_expression {id n : Nat} {root : ElementId} {parens : Nat}
    (h : (tree.entity id).content = .expression root parens) :
    tree.entityOutline n id = .expression (tree.entity id).name
      ((tree.element root).children.toList.map (tree.elementOutline tree.elements.size)) := by
  rw [entityOutline.eq_def]
  cases n <;> simp only [h]

mutual

/-- An entity that is laid out in the tables of a tree shows the outline that it was laid out
from. -/
theorem entityOutline_of_cells : ∀ (o : EntityOutline) {before after : List Entity}
    {before' after' : List Element} {parent : Option Nat} {id first n : Nat},
    before.length = id → before'.length = first →
    tree.plainEntities = before ++ (entitiesOf first (o.rose.cells parent id) ++ after) →
    tree.plainElements = before' ++ (elementsOf id first (o.rose.cells parent id) ++ after') →
    o.rose.size ≤ n → tree.entityOutline n id = o
  | .sect name title members, before, after, before', after', parent, id, first, n,
      hid, hfirst, h, h', hl => by
    rw [EntityOutline.rose, Rose.size_node] at hl
    obtain ⟨n, rfl⟩ : ∃ m, n = m + 1 := ⟨n - 1, by omega⟩
    rw [EntityOutline.rose, Rose.cells_node, entitiesOf, List.cons_append] at h
    rw [EntityOutline.rose, Rose.cells_node, elementsOf] at h'
    have he := entity_of_eq h
    rw [hid] at he
    have hn : (tree.entity id).name = name := congrArg Entity.name he
    have hc : (tree.entity id).content =
        .sect title (Rose.places (id + 1) (EntityOutline.roses members)).toArray :=
      congrArg Entity.content he
    rw [List.append_cons] at h
    rw [entityOutline_sect hc, hn, List.toList_toArray,
      allOutlines_of_cells members (by simp [hid]) hfirst h h' (by omega)]
  | .array name items, before, after, before', after', parent, id, first, n,
      hid, hfirst, h, h', hl => by
    rw [EntityOutline.rose, Rose.size_node] at hl
    obtain ⟨n, rfl⟩ : ∃ m, n = m + 1 := ⟨n - 1, by omega⟩
    rw [EntityOutline.rose, Rose.cells_node, entitiesOf, List.cons_append] at h
    rw [EntityOutline.rose, Rose.cells_node, elementsOf] at h'
    have he := entity_of_eq h
    rw [hid] at he
    have hn : (tree.entity id).name = name := congrArg Entity.name he
    have hc : (tree.entity id).content =
        .array (Rose.places (id + 1) (EntityOutline.roses items)).toArray :=
      congrArg Entity.content he
    rw [List.append_cons] at h
    rw [entityOutline_array hc, hn, List.toList_toArray,
      allOutlines_of_cells items (by simp [hid]) hfirst h h' (by omega)]
  | .expression name row, before, after, before', after', parent, id, first, n,
      hid, hfirst, h, h', hl => by
    rw [EntityOutline.rose, Rose.cells_node, entitiesOf, List.cons_append] at h
    rw [EntityOutline.rose, Rose.cells_node, elementsOf, Rose.rowCells_nil, elementsOf,
      List.append_nil] at h'
    have he := entity_of_eq h
    rw [hid] at he
    have hn : (tree.entity id).name = name := congrArg Entity.name he
    have hc : (tree.entity id).content = .expression first 0 := congrArg Entity.content he
    have hsize : Rose.sizes (ElementOutline.roses row) ≤ tree.elements.size := by
      have := congrArg List.length h'
      simp only [length_plainElements, List.length_append, EntityLabel.length_elements,
        EntityLabel.width, ElementOutline.rootRose, Rose.size_node] at this
      omega
    rw [entityOutline_expression hc, hn, rootRow_of_cells hfirst h' hsize]

theorem allOutlines_of_cells : ∀ (os : List EntityOutline) {before after : List Entity}
    {before' after' : List Element} {parent : Nat} {id first n : Nat},
    before.length = id → before'.length = first →
    tree.plainEntities = before ++
      (entitiesOf first (Rose.rowCells parent id (EntityOutline.roses os)) ++ after) →
    tree.plainElements = before' ++
      (elementsOf id first (Rose.rowCells parent id (EntityOutline.roses os)) ++ after') →
    Rose.sizes (EntityOutline.roses os) ≤ n →
    (Rose.places id (EntityOutline.roses os)).map (tree.entityOutline n) = os
  | [], _, _, _, _, _, _, _, _, _, _, _, _, _ => rfl
  | o :: os, before, after, before', after', parent, id, first, n, hid, hfirst, h, h', hl => by
    rw [EntityOutline.roses, Rose.sizes_cons] at hl
    rw [EntityOutline.roses, Rose.rowCells_cons, entitiesOf_append, List.append_assoc] at h
    rw [EntityOutline.roses, Rose.rowCells_cons, elementsOf_append, Rose.length_cells,
      List.append_assoc] at h'
    have ho := entityOutline_of_cells o (n := n) hid hfirst h h' (by omega)
    rw [← List.append_assoc before] at h
    rw [← List.append_assoc before'] at h'
    have hos := allOutlines_of_cells os (n := n) (by simp [hid]) (by simp [hfirst]) h h'
      (by omega)
    rw [EntityOutline.roses, Rose.places_cons, List.map_cons, ho, hos]

end

theorem outline_of_tables {o : EntityOutline}
    (h : tree.plainEntities = entitiesOf 0 (o.rose.cells none 0))
    (h' : tree.plainElements = elementsOf 0 0 (o.rose.cells none 0)) : tree.outline = o := by
  have hsize : tree.entities.size = o.rose.size := by
    rw [← length_plainEntities, h, length_entitiesOf, Rose.length_cells]
  have h₀ : tree.plainEntities = [] ++ (entitiesOf 0 (o.rose.cells none 0) ++ []) := by
    rw [h, List.append_nil, List.nil_append]
  have h₀' : tree.plainElements = [] ++ (elementsOf 0 0 (o.rose.cells none 0) ++ []) := by
    rw [h', List.append_nil, List.nil_append]
  exact entityOutline_of_cells o rfl rfl h₀ h₀' (by omega)

end Tree

end Formulary

import Formulary.Proofs.Layout.Growth
import Formulary.Proofs.Reader.Nest
import Formulary.Reader.State

/-!
# Opening and closing entities

The elementary changes of a reading's state that open or close a section, an array or an expression
are small moves between nests.

* `Shows.openArray`, `Shows.openUntitled`, `Shows.openExpression`: a further entity is open.
* `Shows.openSection`: a section gets its title.
* `Shows.closeArray`, `Shows.closeSection`, `Shows.closeRoot`: the innermost entity is complete.
-/

namespace Formulary

open Nest

namespace Reader

variable {r : Reader}

/-- Only the tables, the places and the counts of a state matter for its nest. -/
theorem Shows.of_same {n : Nest} {r' : Reader} (h : r.Shows n) (ht : r'.tree = r.tree)
    (hc : r'.current = r.current) (he : r'.element = r.element)
    (ha : r'.openArrays = r.openArrays) (hs : r'.openSections = r.openSections) : r'.Shows n where
  entities := by rw [ht]; exact h.entities
  elements := by rw [ht]; exact h.elements
  current := by rw [hc]; exact h.current
  element := by rw [he]; exact h.element
  openArrays := by rw [ha]; exact h.openArrays
  openSections := by rw [hs]; exact h.openSections

theorem Shows.enter {n : Nest} (h : r.Shows n) (p : Phase) : (r.enter p).Shows n :=
  h.of_same rfl rfl rfl rfl rfl

theorem Shows.beginToken {n : Nest} (h : r.Shows n) (c : Char) : (r.beginToken c).Shows n :=
  h.of_same rfl rfl rfl rfl rfl

theorem Shows.extendToken {n : Nest} (h : r.Shows n) (c : Char) : (r.extendToken c).Shows n :=
  h.of_same rfl rfl rfl rfl rfl

theorem element_of_none {n : Nest} (hn : n.element? = none) :
    ∀ id, n.element? = some id → r.element = some id := by
  intro id h
  rw [hn] at h
  cases h

end Reader

/-! ## The tables around the innermost entity -/

namespace Nest

variable {e : OpenEntity} {es : List OpenEntity}

def cell (e : OpenEntity) (es : List OpenEntity) (inner : List EntityId) : Cell EntityLabel :=
  ⟨e.label, Rose.places (place es + 1) (EntityOutline.roses e.closed) ++ inner,
    Frame.top? 0 (entityFrames es)⟩

theorem cells_eq (e : OpenEntity) (es : List OpenEntity) (inner : List EntityId) :
    outerCells es ++ Frame.block 0 e.frame (entityFrames es) inner =
      outerCells es ++ cell e es inner ::
      Rose.rowCells (place es) (place es + 1) (EntityOutline.roses e.closed) := rfl

theorem entities_split (e : OpenEntity) (es : List OpenEntity) (inner : List EntityId) :
    entitiesOf 0 (outerCells es ++ Frame.block 0 e.frame (entityFrames es) inner) =
      entitiesOf 0 (outerCells es) ++ (cell e es inner).entity (first es) ::
        entitiesOf (first es)
          (Rose.rowCells (place es) (place es + 1) (EntityOutline.roses e.closed)) := by
  rw [cells_eq, entitiesOf_append, entitiesOf, Nat.zero_add]
  rw [show (cell e es inner).label.width = 0 from e.width_label, Nat.add_zero, first]

theorem elements_split (e : OpenEntity) (es : List OpenEntity) (inner : List EntityId) :
    elementsOf 0 0 (outerCells es ++ Frame.block 0 e.frame (entityFrames es) inner) =
      elementsOf 0 0 (outerCells es) ++ elementsOf (0 + (outerCells es).length + 1)
        (0 + widths (outerCells es))
        (Rose.rowCells (place es) (place es + 1) (EntityOutline.roses e.closed)) := by
  rw [cells_eq, elementsOf_append, elementsOf]
  rw [show (cell e es inner).label.elements _ _ = [] from e.elements_label _ _, List.nil_append]
  rw [show (cell e es inner).label.width = 0 from e.width_label]
  rfl

/-- The elements of entities do not depend on what is open in the innermost of them. -/
theorem elementsOf_cells (e : OpenEntity) (es : List OpenEntity) :
    elementsOf 0 0 (Frame.cells 0 (entityFrames (e :: es))) =
      elementsOf 0 0 (outerCells (e :: es)) :=
  (elements_split e es []).trans (elements_split e es [place (e :: es)]).symm

theorem attach_entity (e : OpenEntity) (es : List OpenEntity) (root : ElementId) (id : EntityId) :
    { (cell e es []).entity root with
        content := ((cell e es []).entity root).content.attach id } =
      (cell e es [id]).entity root := by
  cases e <;> simp [cell, Cell.entity, Content.attach, OpenEntity.label]

end Nest

namespace Reader

variable {r : Reader} {e : OpenEntity} {es : List OpenEntity} {name : Option String}

theorem Shows.entities_size (h : r.Shows (.entity e es)) :
    r.tree.entities.size = place (e :: es) := by
  rw [← Tree.length_plainEntities, h.entities, Nest.entities, length_entitiesOf, place,
    ← Frame.length_cells, Nat.zero_add]

theorem Shows.elements_size (h : r.Shows (.entity e es)) :
    r.tree.elements.size = first (e :: es) := by
  rw [← Tree.length_plainElements, h.elements, Nest.elements, elementsOf_cells, length_elementsOf,
    first]

theorem Shows.entities_split (h : r.Shows (.entity e es)) :
    r.tree.plainEntities = entitiesOf 0 (outerCells es) ++ (cell e es []).entity (Nest.first es) ::
      entitiesOf (Nest.first es)
        (Rose.rowCells (place es) (place es + 1) (EntityOutline.roses e.closed)) := by
  rw [h.entities, Nest.entities]
  exact Nest.entities_split e es []

theorem Shows.entity_eq (h : r.Shows (.entity e es)) :
    r.entity.unplaced = (cell e es []).entity (Nest.first es) := by
  have := Tree.entity_of_eq h.entities_split
  rwa [Nest.length_entities_place, ← show r.current = place es from h.current] at this

/-! ## Opening entities -/

theorem Shows.addEntity (h : r.Shows (.entity e es)) (name : Option String) (position : Position)
    (content : Content) :
    (r.tree.addEntity name r.current position content).plainEntities =
      entitiesOf 0 (outerCells (e :: es)) ++ [⟨name, some (place es), default, content⟩] := by
  have hadd := Tree.plainEntities_addEntity h.entities_split name position content
  rw [Nest.length_entities_place, h.entities_size, attach_entity] at hadd
  rw [show r.current = place es from h.current, hadd]
  congr 1
  exact (Nest.entities_split e es [place (e :: es)]).symm

theorem Shows.openEntity (h : r.Shows (.entity e es)) (e' : OpenEntity) (content : Content)
    (hclosed : e'.closed = [])
    (hcontent : (cell e' (e :: es) []).entity (Nest.first (e :: es)) =
      ⟨r.memberName, some (place es), default, content⟩) :
    (r.openEntity content).tree.plainEntities = (Nest.entity e' (e :: es)).entities ∧
      (r.openEntity content).tree.plainElements = (Nest.entity e' (e :: es)).elements := by
  constructor
  · rw [Reader.openEntity, h.addEntity, ← hcontent, Nest.entities, entityFrames, List.map_cons,
      Frame.cells]
    rw [show Frame.outer 0 (List.map OpenEntity.frame (e :: es)) = outerCells (e :: es) from rfl]
    rw [show List.map OpenEntity.frame (e :: es) = entityFrames (e :: es) from rfl,
      Nest.entities_split, hclosed, EntityOutline.roses, Rose.rowCells_nil, entitiesOf]
  · rw [Reader.openEntity, Tree.plainElements_addEntity, h.elements, Nest.elements, Nest.elements,
      elementsOf_cells, elementsOf_cells]
    rw [show outerCells (e' :: e :: es) = outerCells (e :: es) ++
      Frame.block 0 e'.frame (entityFrames (e :: es)) [place (e' :: e :: es)] from rfl, cells_eq,
      elementsOf_append, elementsOf, hclosed, EntityOutline.roses, Rose.rowCells_nil, elementsOf]
    rw [show (cell e' (e :: es) _).label.elements _ _ = [] from e'.elements_label _ _]
    simp

theorem Shows.openArray (h : r.Shows (.entity e es)) :
    r.openArray.Shows (.entity (.array r.memberName []) (e :: es)) := by
  obtain ⟨h₁, h₂⟩ := h.openEntity (.array r.memberName []) (.array #[]) rfl rfl
  refine ⟨h₁, h₂, h.entities_size, element_of_none rfl, ?_, h.openSections⟩
  show r.openArrays + 1 = _
  rw [h.openArrays]
  simp [Nest.opened, List.countP_cons]

theorem Shows.openUntitled (h : r.Shows (.entity e es)) :
    (r.openEntity (.sect none #[])).Shows (.entity (.sect r.memberName none []) (e :: es)) := by
  obtain ⟨h₁, h₂⟩ := h.openEntity (.sect r.memberName none []) (.sect none #[]) rfl rfl
  exact ⟨h₁, h₂, h.entities_size, element_of_none rfl, h.openArrays, h.openSections⟩

theorem Shows.openExpression (h : r.Shows (.entity e es)) :
    r.openExpression.Shows (.row e es r.memberName OpenFormula.blank) where
  entities := by
    rw [Reader.openExpression, Tree.addExpression, Nest.entities, ← h.elements_size]
    exact h.addEntity r.memberName r.cursor _
  elements := by
    rw [Reader.openExpression, Tree.plainElements_addExpression, h.elements, Nest.elements,
      Nest.elements, elementsOf_cells, h.entities_size]
    simp [OpenFormula.frames, OpenFormula.blank, OpenFormula.outerFrames, OpenFormula.rowKind,
      OpenFormula.rowFrame, Frame.cells, Frame.outer, Frame.block, Frame.top?, ElementOutline.roses,
      Cell.element]
  current := h.entities_size
  element := fun id hid => by
    cases hid
    show some r.tree.elements.size = _
    rw [h.elements_size]
    rfl
  openArrays := h.openArrays
  openSections := h.openSections

theorem Shows.openSection {ms : List EntityOutline}
    (h : r.Shows (.entity (.sect name none ms) es)) :
    r.openSection.Shows (.entity (.sect name (some r.token) ms) es) where
  entities := by
    have hcurrent : r.current = place es := h.current
    have hlength : (entitiesOf 0 (outerCells es)).length = r.current :=
      (Nest.length_entities_place es).trans hcurrent.symm
    refine (Tree.plainEntities_modifyEntity h.entities_split hlength ?_).trans ?_
    · intro e
      cases hc : e.content <;> simp [Entity.unplaced, hc]
    · exact (Nest.entities_split (.sect name (some r.token) ms) es []).symm
  elements := by
    refine Tree.plainElements_modifyEntity.trans (h.elements.trans ?_)
    exact (Nest.elements_split (.sect name none ms) es []).trans
      (Nest.elements_split (.sect name (some r.token) ms) es []).symm
  current := h.current
  element := element_of_none rfl
  openArrays := h.openArrays
  openSections := by
    show r.openSections + 1 = _
    rw [h.openSections]
    simp [Nest.opened, List.countP_cons]

/-! ## Closing entities -/

/-- Closing the innermost entity changes no row of the table of entities. -/
theorem cells_outline (e' e : OpenEntity) (es : List OpenEntity) :
    Frame.cells 0 (entityFrames (e' :: e :: es)) =
      Frame.cells 0 (entityFrames (e.add e'.outline :: es)) := by
  have hframe : (e.add e'.outline).frame = ⟨e.label,
      EntityOutline.roses e.closed ++ [.node e'.label (EntityOutline.roses e'.closed)]⟩ := by
    rw [OpenEntity.frame, OpenEntity.label_add, OpenEntity.closed_add,
      EntityOutline.roses_append, EntityOutline.roses, EntityOutline.roses,
      OpenEntity.rose_outline]
  rw [entityFrames, entityFrames, List.map_cons, List.map_cons, List.map_cons, hframe]
  exact (Frame.cells_close 0 e'.frame e.frame (entityFrames es)).symm

theorem Shows.leave_entity {e' : OpenEntity} (h : r.Shows (.entity e' (e :: es))) :
    r.leave = { r with current := place es } := by
  have hparent : r.entity.parent = some (place es) := by
    refine (congrArg Entity.parent h.entity_eq).trans ?_
    cases e' <;> rfl
  simp [Reader.leave, hparent]

theorem Shows.closeArray {items : List EntityOutline}
    (h : r.Shows (.entity (.array name items) (e :: es))) :
    r.closeArray.Shows (.entity (e.add (.array name items)) es) := by
  rw [Reader.closeArray, h.leave_entity]
  refine ⟨?_, ?_, rfl, element_of_none rfl, ?_, ?_⟩
  · exact h.entities.trans (congrArg (entitiesOf 0) (cells_outline (.array name items) e es))
  · exact h.elements.trans (congrArg (elementsOf 0 0) (cells_outline (.array name items) e es))
  · show r.openArrays - 1 = _
    rw [h.openArrays]
    simp [Nest.opened, List.countP_cons]
  · show r.openSections = _
    rw [h.openSections]
    simp [Nest.opened, List.countP_cons]

theorem Shows.closeSection {title : String} {ms : List EntityOutline}
    (h : r.Shows (.entity (.sect name (some title) ms) (e :: es))) :
    r.closeSection.Shows (.entity (e.add (.sect name (some title) ms)) es) := by
  rw [Reader.closeSection, h.leave_entity]
  refine ⟨?_, ?_, rfl, element_of_none rfl, ?_, ?_⟩
  · exact h.entities.trans
      (congrArg (entitiesOf 0) (cells_outline (.sect name (some title) ms) e es))
  · exact h.elements.trans
      (congrArg (elementsOf 0 0) (cells_outline (.sect name (some title) ms) e es))
  · show r.openArrays = _
    rw [h.openArrays]
    simp [Nest.opened, List.countP_cons]
  · show r.openSections - 1 = _
    rw [h.openSections]
    simp [Nest.opened, List.countP_cons]

theorem Shows.closeRoot {title : String} {ms : List EntityOutline}
    (h : r.Shows (.entity (.sect name (some title) ms) [])) :
    r.closeSection.Shows (.done (.sect name (some title) ms)) := by
  have hparent : r.entity.parent = none := congrArg Entity.parent h.entity_eq
  have hleave : r.leave = r := by simp [Reader.leave, hparent]
  have hcells : Frame.cells 0 (entityFrames [.sect name (some title) ms]) =
      (EntityOutline.sect name (some title) ms).rose.cells none 0 :=
    Frame.cells_single 0 (OpenEntity.sect name (some title) ms).frame
  rw [Reader.closeSection, hleave]
  refine ⟨?_, ?_, h.current, element_of_none rfl, ?_, ?_⟩
  · exact h.entities.trans (congrArg (entitiesOf 0) hcells)
  · exact h.elements.trans (congrArg (elementsOf 0 0) hcells)
  · show r.openArrays = _
    rw [h.openArrays]
    rfl
  · show r.openSections - 1 = _
    rw [h.openSections]
    rfl

end Reader

end Formulary

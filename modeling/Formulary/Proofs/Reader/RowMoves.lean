import Formulary.Proofs.Reader.EntityMoves
import Formulary.Reader.Step

/-!
# Opening and closing rows

The elementary changes of a reading's state inside an expression are small moves between nests.

* `Reader.RowTables`: the tables of a state inside an expression, frame by frame.
* `Shows.flush`: an element is added to the innermost row.
* `Shows.openParen`, `Shows.closeParen`: a parenthesis of the innermost row.
* `Shows.openCall`, `Shows.nextArgument`, `Shows.closeCall`: the calls around it.
* `Shows.leave_row`: the expression is complete.
-/

namespace Formulary

open Nest OpenFormula

namespace Reader

variable {r : Reader} {e : OpenEntity} {es : List OpenEntity} {name : Option String}
  {f : OpenFormula} {n : Nat} {g : Frame ElementLabel} {fs : List (Frame ElementLabel)}

/-- The tables of a state inside an expression with some open frames and some open parentheses. -/
structure RowTables (r : Reader) (e : OpenEntity) (es : List OpenEntity) (name : Option String)
    (depth : Nat) (fs : List (Frame ElementLabel)) : Prop where
  entities : r.tree.plainEntities = entitiesOf 0 (outerCells (e :: es)) ++
    [⟨name, some (place es), default, .expression (first (e :: es)) depth⟩]
  elements : r.tree.plainElements = elementsOf 0 0 (outerCells (e :: es)) ++
    (Frame.cells (first (e :: es)) fs).map (Cell.element (place (e :: es)))
  current : r.current = place (e :: es)
  openArrays : r.openArrays = (e :: es).countP OpenEntity.isArray
  openSections : r.openSections = (e :: es).countP OpenEntity.isTitled

theorem Shows.tables (h : r.Shows (.row e es name f)) : r.RowTables e es name f.depth f.frames :=
  ⟨h.entities, h.elements, h.current, h.openArrays, h.openSections⟩

theorem Shows.element_eq (h : r.Shows (.row e es name f)) :
    r.element = some (Frame.next (first (e :: es)) (outerFrames f.outer)) :=
  h.element _ rfl

theorem RowTables.shows (h : r.RowTables e es name f.depth f.frames)
    (he : r.element = some (Frame.next (first (e :: es)) (outerFrames f.outer))) :
    r.Shows (.row e es name f) :=
  ⟨h.entities, h.elements, h.current, fun id hid => by cases hid; exact he, h.openArrays,
    h.openSections⟩

/-! ## Frames -/

theorem RowTables.close {g' : Frame ElementLabel} (h : r.RowTables e es name n (g' :: g :: fs)) :
    r.RowTables e es name n (⟨g.label, g.closed ++ [.node g'.label g'.closed]⟩ :: fs) := by
  refine ⟨h.entities, ?_, h.current, h.openArrays, h.openSections⟩
  rw [h.elements, Frame.cells_close]

/-- A new element under the innermost one is a frame of its own. -/
theorem RowTables.open (h : r.RowTables e es name n (g :: fs)) {r' : Reader} {kind : ElementKind}
    {text : String} {position : Position}
    (ht : r'.tree = r.tree.addElement (Frame.next (first (e :: es)) fs) kind text position)
    (hc : r'.current = r.current) (ha : r'.openArrays = r.openArrays)
    (hs : r'.openSections = r.openSections) :
    r'.RowTables e es name n (⟨⟨kind, text, 0⟩, []⟩ :: g :: fs) where
  entities := by rw [ht, Tree.plainEntities_addElement]; exact h.entities
  elements := by
    rw [ht]
    exact Tree.plainElements_open (length_elements_first _) h.elements kind text position
  current := hc.trans h.current
  openArrays := ha.trans h.openArrays
  openSections := hs.trans h.openSections

theorem RowTables.adjustParens (h : r.RowTables e es name n (g :: fs)) (k : Nat → Nat) :
    (r.adjustParens (Frame.next (first (e :: es)) fs) k).RowTables e es name (k n)
      (⟨{ g.label with openParens := k g.label.openParens }, g.closed⟩ :: fs) where
  entities := by
    refine Tree.plainEntities_modifyEntity h.entities ?_ ?_
    · rw [Nest.length_entities_place, h.current]
    · intro e
      cases hc : e.content <;> simp [Entity.unplaced, hc]
  elements := Tree.plainElements_modifyEntity.trans
    (Tree.plainElements_relabel (length_elements_first _) h.elements)
  current := h.current
  openArrays := h.openArrays
  openSections := h.openSections

/-- The element of a frame. -/
theorem RowTables.element_at (gs : List (Frame ElementLabel))
    (h : r.RowTables e es name n (gs ++ g :: fs)) :
    ∃ children, (r.tree.element (Frame.next (first (e :: es)) fs)).unplaced =
      Cell.element (place (e :: es)) ⟨g.label, children, Frame.top? (first (e :: es)) fs⟩ := by
  obtain ⟨children, after, hcells⟩ := Frame.cells_at (first (e :: es)) g fs gs
  have helements := h.elements
  rw [hcells, List.map_append, List.map_cons, ← List.append_assoc] at helements
  have := Tree.element_of_eq helements
  rw [Tree.length_outerElements (length_elements_first (e :: es)) fs] at this
  exact ⟨children, this⟩

theorem RowTables.parent_at (gs : List (Frame ElementLabel))
    (h : r.RowTables e es name n (gs ++ g :: fs)) :
    (r.tree.element (Frame.next (first (e :: es)) fs)).parent =
      Frame.top? (first (e :: es)) fs := by
  obtain ⟨children, hc⟩ := h.element_at gs
  exact congrArg Element.parent hc

theorem RowTables.elements_size (h : r.RowTables e es name n fs) :
    r.tree.elements.size = Frame.next (first (e :: es)) fs := by
  rw [← Tree.length_plainElements, h.elements, List.length_append, length_elementsOf,
    List.length_map, ← first, Frame.length_cells]

/-! ## Elements of the innermost row -/

theorem addElement_eq {id : ElementId} (h : r.element = some id) (kind : ElementKind)
    (text : String) (position : Position) :
    r.addElement kind text position =
      { r with tree := r.tree.addElement id kind text position } := by
  rw [Reader.addElement, h]

theorem flush_eq {id : ElementId} (h : r.element = some id) (kind : ElementKind) :
    r.flush kind =
      { r with tree := r.tree.addElement id kind r.token r.tokenStart, token := "" } := by
  rw [Reader.flush, addElement_eq h]

theorem Shows.addElement (h : r.Shows (.row e es name f)) (kind : ElementKind) (text : String)
    (position : Position) :
    (r.addElement kind text position).Shows (.row e es name (f.add [.leaf kind text])) := by
  have hr := addElement_eq h.element_eq kind text position
  have hopen : (r.addElement kind text position).RowTables e es name f.depth
      (⟨⟨kind, text, 0⟩, []⟩ :: f.frames) :=
    h.tables.open (by rw [hr]) (by rw [hr]) (by rw [hr]) (by rw [hr])
  have hframes : (f.add [.leaf kind text]).frames =
      ⟨(rowFrame (rowKind f.outer) f.inner.parens f.inner).label,
        (rowFrame (rowKind f.outer) f.inner.parens f.inner).closed ++ [.node ⟨kind, text, 0⟩ []]⟩ ::
          outerFrames f.outer := by
    simp [frames, OpenFormula.add, rowFrame, ElementOutline.roses, ElementOutline.leaf,
      ElementOutline.rose]
  refine RowTables.shows ?_ (by rw [hr]; exact h.element_eq)
  rw [hframes]
  exact hopen.close

theorem Shows.flush (h : r.Shows (.row e es name f)) (kind : ElementKind) :
    (r.flush kind).Shows (.row e es name (f.add [.leaf kind r.token])) :=
  (h.addElement kind r.token r.tokenStart).of_same rfl rfl rfl rfl rfl

/-! ## Parentheses -/

variable {row : List ElementOutline} {parens : Nat} {outer : List (OpenCall × OpenRow)}

theorem Shows.adjustParens {k : Nat → Nat} {m : Nat}
    (h : r.Shows (.row e es name ⟨⟨row, parens⟩, outer⟩)) (hm : k parens = m)
    (hk : k (parens + outerDepth outer) = m + outerDepth outer) :
    (r.adjustParens (Frame.next (first (e :: es)) (outerFrames outer)) k).Shows
      (.row e es name ⟨⟨row, m⟩, outer⟩) := by
  subst hm
  refine RowTables.shows ?_ h.element_eq
  have htables := h.tables.adjustParens k
  rw [depth, hk] at htables
  exact htables

theorem Shows.openParen (h : r.Shows (.row e es name ⟨⟨row, parens⟩, outer⟩)) :
    r.openParen.Shows
      (.row e es name ⟨⟨row ++ [.leaf .symbol "("], parens + 1⟩, outer⟩) := by
  rw [Reader.openParen, h.element_eq]
  exact (h.adjustParens (k := (· + 1)) rfl (by omega)).addElement .symbol "(" r.cursor

theorem Shows.closeParen (h : r.Shows (.row e es name ⟨⟨row, parens + 1⟩, outer⟩)) :
    r.closeParen.Shows (.row e es name ⟨⟨row ++ [.leaf .symbol ")"], parens⟩, outer⟩) := by
  rw [Reader.closeParen, h.element_eq]
  refine (h.addElement .symbol ")" r.cursor).adjustParens (k := (· - 1)) rfl ?_
  show parens + 1 + outerDepth outer - 1 = parens + outerDepth outer
  omega

/-! ## Calls -/

variable {i : OpenRow} {c : OpenCall}

theorem Shows.openCall (h : r.Shows (.row e es name ⟨i, outer⟩)) :
    r.openCall.Shows (.row e es name ⟨⟨[], 0⟩, (⟨r.token, []⟩, i) :: outer⟩) := by
  let id := Frame.next (first (e :: es)) (outerFrames outer)
  let r₁ := r.adjustParens id (· + 1)
  have hflush := flush_eq (r := r₁) h.element_eq .function
  have hcall : (r₁.flush .function).RowTables e es name _ (⟨⟨.function, r₁.token, 0⟩, []⟩ :: _) :=
    (h.tables.adjustParens (· + 1)).open (by rw [hflush]) (by rw [hflush]) (by rw [hflush])
      (by rw [hflush])
  have hr : r.openCall = { r₁.flush .function with
      tree := (r₁.flush .function).tree.addElement r.tree.elements.size .argument ""
        (r₁.flush .function).cursor
      element := some (r.tree.elements.size + 1) } := by
    rw [Reader.openCall, h.element_eq]
  have hargument : r.openCall.RowTables e es name _ (⟨⟨.argument, "", 0⟩, []⟩ :: _) :=
    hcall.open (by rw [hr, h.tables.elements_size]; rfl) (by rw [hr]) (by rw [hr]) (by rw [hr])
  refine RowTables.shows ?_ (by rw [hr, h.tables.elements_size]; rfl)
  rw [show (OpenFormula.mk ⟨[], 0⟩ ((⟨r.token, []⟩, i) :: outer)).depth =
    (OpenFormula.mk i outer).depth + 1 by simp only [depth, outerDepth]; omega]
  exact hargument

/-- The place of the call around the innermost row. -/
theorem Shows.parent_eq (h : r.Shows (.row e es name ⟨i, (c, o) :: outer⟩)) :
    (r.element.bind fun id => (r.tree.element id).parent) = some (Frame.next (first (e :: es))
      (rowFrame (rowKind outer) (o.parens + 1) o :: outerFrames outer)) := by
  rw [h.element_eq]
  exact h.tables.parent_at []

theorem Shows.nextArgument (h : r.Shows (.row e es name ⟨⟨row, 0⟩, (c, o) :: outer⟩)) :
    r.nextArgument.Shows
      (.row e es name ⟨⟨[], 0⟩, (⟨c.name, c.done ++ [row]⟩, o) :: outer⟩) := by
  have hr : r.nextArgument = { r with
      tree := r.tree.addElement (Frame.next (first (e :: es))
        (rowFrame (rowKind outer) (o.parens + 1) o :: outerFrames outer)) .argument "" r.cursor
      element := some r.tree.elements.size } := by
    rw [Reader.nextArgument, h.parent_eq]
  have hopen : r.nextArgument.RowTables e es name _ (⟨⟨.argument, "", 0⟩, []⟩ :: _) :=
    h.tables.close.open (by rw [hr]) (by rw [hr]) (by rw [hr]) (by rw [hr])
  have hframe : callFrame ⟨c.name, c.done ++ [row]⟩ = ⟨(callFrame c).label, (callFrame c).closed ++
      [.node (rowFrame .argument 0 ⟨row, 0⟩).label (rowFrame .argument 0 ⟨row, 0⟩).closed]⟩ := by
    simp [callFrame, rowFrame, wrapper, ElementOutline.roses, ElementOutline.rose]
  refine RowTables.shows ?_ ?_
  · rw [frames, outerFrames, hframe]
    exact hopen
  · rw [hr, h.tables.close.elements_size, outerFrames, hframe]
    rfl

theorem Shows.closeCall (h : r.Shows (.row e es name ⟨⟨row, 0⟩, (c, o) :: outer⟩)) :
    r.closeCall.Shows (.row e es name ⟨⟨o.row ++ [c.outline row], o.parens⟩, outer⟩) := by
  let id := Frame.next (first (e :: es)) (outerFrames outer)
  have hparent : ((r.element.bind fun id => (r.tree.element id).parent).bind
      fun id => (r.tree.element id).parent) = some id := by
    rw [h.parent_eq]
    exact h.tables.parent_at [_]
  have hr : r.closeCall = { r with element := some id }.adjustParens id (· - 1) := by
    rw [Reader.closeCall, hparent]
  have hrow : (rowFrame (rowKind outer) (o.parens + 1) ⟨o.row ++ [c.outline row], o.parens⟩) =
      ⟨(rowFrame (rowKind outer) (o.parens + 1) o).label,
        (rowFrame (rowKind outer) (o.parens + 1) o).closed ++ [.node (callFrame c).label
          ((callFrame c).closed ++ [.node (rowFrame .argument 0 ⟨row, 0⟩).label
            (rowFrame .argument 0 ⟨row, 0⟩).closed])]⟩ := by
    simp [callFrame, rowFrame, wrapper, OpenCall.outline, ElementOutline.roses, ElementOutline.rose]
  have hshows : { r with element := some id }.Shows
      (.row e es name ⟨⟨o.row ++ [c.outline row], o.parens + 1⟩, outer⟩) := by
    refine RowTables.shows ?_ rfl
    have hclose : r.RowTables e es name (OpenFormula.mk ⟨row, 0⟩ ((c, o) :: outer)).depth
        (rowFrame (rowKind outer) (o.parens + 1) ⟨o.row ++ [c.outline row], o.parens⟩ ::
          outerFrames outer) := by
      rw [hrow]
      exact h.tables.close.close
    rw [show (OpenFormula.mk ⟨o.row ++ [c.outline row], o.parens + 1⟩ outer).depth =
      (OpenFormula.mk ⟨row, 0⟩ ((c, o) :: outer)).depth by simp only [depth, outerDepth]; omega]
    exact ⟨hclose.entities, hclose.elements, hclose.current, hclose.openArrays,
      hclose.openSections⟩
  rw [hr]
  exact hshows.adjustParens (k := (· - 1)) rfl (by
    show o.parens + 1 + outerDepth outer - 1 = o.parens + outerDepth outer
    omega)

/-! ## The end of an expression -/

theorem Shows.entity_row (h : r.Shows (.row e es name f)) :
    r.entity.unplaced =
      ⟨name, some (place es), default, .expression (first (e :: es)) f.depth⟩ := by
  have := Tree.entity_of_eq h.entities
  rwa [Nest.length_entities_place, ← show r.current = place (e :: es) from h.current] at this

/-- A complete expression is one more row of the table of entities. -/
theorem cells_expression (e : OpenEntity) (es : List OpenEntity) (name : Option String)
    (row : List ElementOutline) :
    Frame.cells 0 (entityFrames (e.add (.expression name row) :: es)) =
      outerCells (e :: es) ++ [⟨.expression name row, [], some (place es)⟩] := by
  have hframe : (e.add (.expression name row)).frame =
      ⟨e.label, EntityOutline.roses e.closed ++ [.node (.expression name row) []]⟩ := by
    rw [OpenEntity.frame, OpenEntity.label_add, OpenEntity.closed_add, EntityOutline.roses_append]
    rfl
  rw [entityFrames, List.map_cons, hframe]
  exact Frame.cells_add 0 (.expression name row) e.frame (entityFrames es)

theorem Shows.leave_row (h : r.Shows (.row e es name ⟨⟨row, 0⟩, []⟩)) :
    r.leave.Shows (.entity (e.add (.expression name row)) es) := by
  have hparent : r.entity.parent = some (place es) := congrArg Entity.parent h.entity_row
  have hleave : r.leave = { r with current := place es } := by simp [Reader.leave, hparent]
  have hlength : (outerCells (e :: es)).length = place (e :: es) := by
    rw [← length_entitiesOf 0, Nest.length_entities_place]
  rw [hleave]
  refine ⟨?_, ?_, rfl, element_of_none rfl, ?_, ?_⟩
  · refine h.entities.trans ?_
    rw [Nest.entities, cells_expression, entitiesOf_append, Nat.zero_add]
    rfl
  · refine h.elements.trans ?_
    rw [Nest.elements, cells_expression, elementsOf_append, hlength, Nat.zero_add, Nat.zero_add,
      elementsOf, elementsOf, List.append_nil, Nest.elements, frames, outerFrames,
      Frame.cells_single]
    rfl
  · refine h.openArrays.trans ?_
    simp [Nest.opened, List.countP_cons]
  · refine h.openSections.trans ?_
    simp [Nest.opened, List.countP_cons]

end Reader

end Formulary

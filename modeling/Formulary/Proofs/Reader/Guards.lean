import Formulary.Proofs.Reader.RowMoves

/-!
# What a reading looks up

The guards of a step look into the tables and at the counts of open brackets.  In a state that shows
a nest, each of them asks for something that the nest holds.

* `Shows.content_sect`, `Shows.content_array`, `Shows.content_row`: what the current entity is.
* `Shows.elementParens`, `Shows.inArgument`, `Shows.endsExpression`: the innermost row.
* `Shows.openArrays_pos`, `Shows.openSections_pos`, `Shows.openSections_done`: the counts.
-/

namespace Formulary

open Nest OpenFormula

namespace Reader

variable {r : Reader} {e : OpenEntity} {es : List OpenEntity} {name : Option String}
  {f : OpenFormula}

/-! ## The current entity -/

theorem isArray_cell (e : OpenEntity) (es : List OpenEntity) (inner : List EntityId)
    (root : ElementId) : ((cell e es inner).entity root).content.isArray = e.isArray := by
  cases e <;> rfl

theorem Shows.content_entity (h : r.Shows (.entity e es)) :
    r.entity.content = ((cell e es []).entity (first es)).content := by
  rw [← h.entity_eq]
  rfl

theorem Shows.content_sect {title : Option String} {ms : List EntityOutline}
    (h : r.Shows (.entity (.sect name title ms) es)) :
    ∃ ids, r.entity.content = .sect title ids :=
  ⟨_, h.content_entity⟩

theorem Shows.content_array {items : List EntityOutline}
    (h : r.Shows (.entity (.array name items) es)) :
    ∃ ids, r.entity.content = .array ids :=
  ⟨_, h.content_entity⟩

theorem Shows.content_row (h : r.Shows (.row e es name f)) :
    r.entity.content = .expression (first (e :: es)) f.depth :=
  congrArg Entity.content h.entity_row

theorem Shows.isExpression_entity (h : r.Shows (.entity e es)) :
    r.entity.content.isExpression = false := by
  rw [h.content_entity]
  cases e <;> rfl

theorem Shows.parent_isArray (h : r.Shows (.row e es name f)) :
    (r.entity.parent.any fun p => (r.tree.entity p).content.isArray) = e.isArray := by
  have hparent : r.entity.parent = some (place es) := congrArg Entity.parent h.entity_row
  have hentities := h.entities
  rw [Nest.entities, show outerCells (e :: es) = outerCells es ++
    Frame.block 0 e.frame (entityFrames es) [place (e :: es)] from rfl, Nest.entities_split,
    List.append_assoc, List.cons_append] at hentities
  have he := Tree.entity_of_eq hentities
  rw [Nest.length_entities_place] at he
  have hcontent : (r.tree.entity (place es)).content = _ := (congrArg Entity.content he :)
  rw [hparent, Option.any_some, hcontent, isArray_cell]

/-! ## The innermost row -/

theorem Shows.elementParens (h : r.Shows (.row e es name f)) :
    r.elementParens = f.inner.parens := by
  obtain ⟨children, hc⟩ := h.tables.element_at []
  rw [Reader.elementParens, h.element_eq]
  exact congrArg Element.openParens hc

theorem Shows.inArgument (h : r.Shows (.row e es name f)) :
    r.inArgument = true ↔ f.outer ≠ [] := by
  obtain ⟨children, hc⟩ := h.tables.element_at []
  have hkind : (r.tree.element (Frame.next (first (e :: es)) (outerFrames f.outer))).kind =
    rowKind f.outer := congrArg Element.kind hc
  rw [Reader.inArgument, h.element_eq, Option.any_some, hkind]
  cases f.outer <;> simp [rowKind]

theorem Shows.endsExpression (h : r.Shows (.row e es name f)) (c : Char) :
    r.endsExpression c = (f.depth = 0 && (c = ';' || c = ']' || (c = ',' && e.isArray))) := by
  simp only [Reader.endsExpression, h.content_row, h.parent_isArray]

/-! ## The counts -/

theorem Shows.openArrays_pos {items : List EntityOutline}
    (h : r.Shows (.entity (.array name items) es)) : r.openArrays > 0 := by
  rw [h.openArrays, Nest.opened, List.countP_cons]
  simp

theorem Shows.openSections_pos {n : Nest} (h : r.Shows n)
    (ht : ∃ e ∈ n.opened, e.isTitled) : r.openSections > 0 := by
  rw [h.openSections]
  exact List.countP_pos_iff.mpr ht

theorem Shows.openSections_done {root : EntityOutline} (h : r.Shows (.done root)) :
    r.openSections = 0 := h.openSections

end Reader

end Formulary

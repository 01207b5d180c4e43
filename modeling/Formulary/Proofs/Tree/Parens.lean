import Formulary.Proofs.Document.Parens
import Formulary.Proofs.Tree.Arena
import Formulary.Proofs.Tree.Shown

/-!
# Parentheses in a tree

The symbols under an element open and close parentheses.  Where all is complete nothing is open, and
the parts of a row that is read in part are complete.

* `Tree.unclosed`: the parentheses that elements leave open.
* `Tree.KindFits.unclosed`: an element that fits leaves none open.
* `Tree.PlacedRow.unclosed`: elements that are laid out leave open what their outlines do.
* `Tree.Rested`, `Expecting.rested`, `Complete.rested`: what is complete in a row.
-/

namespace Formulary

namespace Tree

variable {ops : List String} {tree : Tree} {ids ids' : List ElementId}

/-- The parentheses that are open after elements, if these close none that is not open. -/
def unclosed (tree : Tree) : List ElementId → Nat → Option Nat
  | [], n => some n
  | id :: ids, n =>
    (parensAfter n (tree.element id).kind (tree.element id).text).bind (tree.unclosed ids)

theorem unclosed_append (n : Nat) :
    tree.unclosed (ids ++ ids') n = (tree.unclosed ids n).bind (tree.unclosed ids') := by
  induction ids generalizing n with
  | nil => rfl
  | cons id ids ih =>
    rw [List.cons_append, unclosed, unclosed, Option.bind_assoc]
    exact congrArg _ (funext ih)

theorem unclosed_of_ne (h : ∀ id ∈ ids, (tree.element id).kind ≠ .symbol) (n : Nat) :
    tree.unclosed ids n = some n := by
  induction ids with
  | nil => rfl
  | cons id ids ih =>
    rw [List.forall_mem_cons] at h
    rw [unclosed, parensAfter_of_ne h.1, Option.bind_some, ih h.2]

/-- Elements leave open what their outlines do. -/
theorem unclosed_outlines (levels : Nat) (n : Nat) :
    tree.unclosed ids n = ElementOutline.unclosed (ids.map (tree.elementOutline levels)) n := by
  induction ids generalizing n with
  | nil => rfl
  | cons id ids ih =>
    have hkind : (tree.elementOutline levels id).kind = (tree.element id).kind := by
      cases levels <;> rfl
    have htext : (tree.elementOutline levels id).text = (tree.element id).text := by
      cases levels <;> rfl
    rw [List.map_cons, unclosed, ElementOutline.unclosed, hkind, htext]
    exact congrArg _ (funext ih)

/-! ## Elements that fit -/

mutual

theorem FormsTerm.unclosed : ∀ {ids : List ElementId}, tree.FormsTerm ids →
    ∀ n, tree.unclosed ids n = some n
  | _, .number h, n | _, .string h, n | _, .identifier h, n | _, .function h, n =>
    unclosed_of_ne (List.forall_mem_singleton.mpr (by rw [h]; decide)) n
  | _, .paren ho ho' h hc hc', n => by
    rw [Tree.unclosed, ho, ho', parensAfter_open, Option.bind_some, unclosed_append, h.unclosed,
      Option.bind_some, Tree.unclosed, hc, hc', parensAfter_close]
    rfl

/-- A row of terms closes the parentheses that it opens. -/
theorem FormsRow.unclosed : ∀ {ids : List ElementId}, tree.FormsRow ids →
    ∀ n, tree.unclosed ids n = some n
  | _, .term h, n => h.unclosed n
  | _, .operate h ho h', n => by
    rw [unclosed_append, h.unclosed, Option.bind_some, Tree.unclosed, ho,
      parensAfter_of_ne (by decide), Option.bind_some, h'.unclosed]

end

/-- An element that fits leaves no parenthesis open. -/
theorem KindFits.unclosed {e : Element} (h : tree.KindFits ops e) (n : Nat) :
    tree.unclosed e.children.toList n = some n := by
  have hnil : e.children = #[] → tree.unclosed e.children.toList n = some n := by
    intro hnil
    rw [hnil]
    rfl
  rw [KindFits] at h
  split at h
  · exact h.2.unclosed n
  · rcases h.2 with h | h
    · exact hnil h
    · exact h.unclosed n
  · refine unclosed_of_ne (fun id hid => ?_) n
    rw [h.2.argument id (Array.mem_toList_iff.mp hid)]
    decide
  all_goals first | exact hnil h | exact hnil h.2

/-! ## Elements that are laid out -/

variable {owner id parent : Nat} {row row' : List ElementOutline}

/-- Each element of a stretch of the table is that of a row. -/
theorem Placed.exists_cell : ∀ {id : Nat} {cs : List (Cell ElementLabel)},
    tree.Placed owner id cs → ∀ e, id ≤ e → e < id + cs.length →
    ∃ c ∈ cs, (tree.element e).unplaced = c.element owner
  | id, [], _, e, hle, hlt => absurd hlt (by simpa using hle)
  | id, c :: cs, h, e, hle, hlt => by
    obtain ⟨he, h⟩ := h.cons
    rcases Nat.eq_or_lt_of_le hle with rfl | hle
    · exact ⟨c, List.mem_cons_self, he⟩
    · obtain ⟨d, hd, he⟩ := h.exists_cell e hle (by rw [List.length_cons] at hlt; omega)
      exact ⟨d, List.mem_cons_of_mem c hd, he⟩

mutual

theorem openParens_cells {parent : Option Nat} {id : Nat} : ∀ o : ElementOutline,
    ∀ c ∈ o.rose.cells parent id, c.label.openParens = 0
  | .mk kind text children => by
    rw [ElementOutline.rose, Rose.cells_node]
    exact List.forall_mem_cons.mpr ⟨rfl, openParens_rowCells children⟩

/-- Nothing is open in elements that show outlines. -/
theorem openParens_rowCells {parent id : Nat} : ∀ row : List ElementOutline,
    ∀ c ∈ Rose.rowCells parent id (ElementOutline.roses row), c.label.openParens = 0
  | [] => nofun
  | o :: row => by
    rw [ElementOutline.roses, Rose.rowCells_cons]
    exact List.forall_mem_append.mpr ⟨openParens_cells o, openParens_rowCells row⟩

end

theorem PlacedRow.unclosed (h : tree.PlacedRow owner parent id row) (n : Nat) :
    tree.unclosed (Rose.places id (ElementOutline.roses row)) n =
      ElementOutline.unclosed row n := by
  rw [unclosed_outlines tree.elements.size, h.outlines (Nat.le_refl _)]

/-- Each element of a row shows one of its outlines. -/
theorem PlacedRow.exists_outline (h : tree.PlacedRow owner parent id row) :
    ∀ c ∈ Rose.places id (ElementOutline.roses row), ∃ o ∈ row, (tree.element c).kind = o.kind := by
  intro c hc
  refine ⟨tree.elementOutline tree.elements.size c, ?_, ?_⟩
  · have hrow := h.outlines (Nat.le_refl _)
    rw [← hrow]
    exact List.mem_map_of_mem hc
  · cases tree.elements.size <;> rfl

/-- Nothing is open in some elements, and what they list is among them. -/
structure Rested (tree : Tree) (id n : Nat) : Prop where
  openParens : ∀ e, id ≤ e → e < id + n → (tree.element e).openParens = 0
  unclosed : ∀ e, id ≤ e → e < id + n → tree.unclosed (tree.element e).children.toList 0 = some 0
  inside : ∀ e, id ≤ e → e < id + n → ∀ c ∈ (tree.element e).children, id ≤ c ∧ c < id + n

/-- Elements that are laid out and fit are at rest. -/
theorem PlacedRow.rested (h : tree.PlacedRow owner parent id row)
    (hfits : tree.ElementsFit ops id (Rose.sizes (ElementOutline.roses row))) :
    tree.Rested id (Rose.sizes (ElementOutline.roses row)) where
  openParens e hle hlt := by
    obtain ⟨c, hc, he⟩ := Placed.exists_cell h e hle (by rwa [Rose.length_rowCells])
    exact (congrArg Element.openParens he).trans (openParens_rowCells row c hc)
  unclosed e hle hlt := (hfits e hle hlt).kind.unclosed 0
  inside e hle hlt c hc := by
    have hlinked := Links.linked_rowCells _ (Placed.shows h)
    obtain ⟨h₁, h₂, -⟩ := hlinked.stored e hle hlt c (Array.mem_toList_iff.mpr hc)
    exact ⟨by omega, h₂⟩

end Tree

/-! ## Rows that are read in part -/

variable {ops : List String} {tree : Tree} {owner parent id n : Nat} {row : List ElementOutline}

/-- A leaf that its kind allows fits. -/
theorem Tree.PlacedRow.fits_leaf {kind : ElementKind} {text : String}
    (h : tree.PlacedRow owner parent id [.leaf kind text])
    (hfits : (tree.element id).kind = kind → (tree.element id).text = text →
      (tree.element id).children = #[] → tree.KindFits ops (tree.element id)) :
    tree.ElementsFit ops id (Rose.sizes (ElementOutline.roses [.leaf kind text])) :=
  .cons (h.cons.1.fits_leaf hfits) (Tree.elementsFit_zero _)

theorem Tree.fits_append {row row' : List ElementOutline}
    (h : tree.PlacedRow owner parent id (row ++ row'))
    (hrow : tree.PlacedRow owner parent id row →
      tree.ElementsFit ops id (Rose.sizes (ElementOutline.roses row)))
    (hrow' : ∀ {id : Nat}, tree.PlacedRow owner parent id row' →
      tree.ElementsFit ops id (Rose.sizes (ElementOutline.roses row'))) :
    tree.ElementsFit ops id (Rose.sizes (ElementOutline.roses (row ++ row'))) := by
  rw [ElementOutline.roses_append, Rose.sizes_append]
  exact (hrow h.append.1).append (hrow' h.append.2)

theorem Lead.fits (l : Lead) (hl : l.valid ops) {id : Nat}
    (h : tree.PlacedRow owner parent id l.row) :
    tree.ElementsFit ops id (Rose.sizes (ElementOutline.roses l.row)) := by
  cases l with
  | none => exact Tree.elementsFit_zero id
  | some p =>
    rw [Lead.valid, Bool.and_eq_true] at hl
    refine Tree.fits_append h (p.1.fits hl.1) fun h => h.fits_leaf fun hkind htext hchildren => ?_
    rw [Tree.KindFits, hkind, htext]
    exact ⟨hl.2, hchildren⟩

theorem fits_leadsRow : ∀ (ls : List Lead), (∀ l ∈ ls, l.valid ops) → ∀ {id : Nat},
    tree.PlacedRow owner parent id (leadsRow ls) →
    tree.ElementsFit ops id (Rose.sizes (ElementOutline.roses (leadsRow ls)))
  | [], _, id, _ => Tree.elementsFit_zero id
  | l :: ls, hls, id, h => by
    rw [List.forall_mem_cons] at hls
    refine Tree.fits_append h (fun h => Tree.fits_append h (fits_leadsRow ls hls.2)
      (l.fits hls.1)) fun h => h.fits_leaf fun hkind htext hchildren => ?_
    rw [Tree.KindFits, hkind]
    exact ⟨.inl htext, hchildren⟩

/-- What has been read of a row before a term is at rest. -/
theorem Expecting.rested (h : Expecting ops n row) (hrow : tree.PlacedRow owner parent id row) :
    tree.Rested id (Rose.sizes (ElementOutline.roses row)) := by
  cases h with
  | @mk l ls hl hls =>
    exact hrow.rested (Tree.fits_append hrow (fits_leadsRow ls hls) (l.fits hl))

/-- What has been read of a row after a term is at rest. -/
theorem Complete.rested (h : Complete ops n row) (hrow : tree.PlacedRow owner parent id row) :
    tree.Rested id (Rose.sizes (ElementOutline.roses row)) := by
  cases h with
  | @mk f ls hf hls =>
    exact hrow.rested (Tree.fits_append hrow (fits_leadsRow ls hls) (f.fits hf))

end Formulary

import Formulary.Proofs.Reader.Depths
import Formulary.Proofs.Reader.Ledger

/-!
# The complete expressions of a reading

In the middle of a reading the expressions around the current one are complete: their elements fit
as they do in a tree, and nothing is open in them.

* `Begun.elementsFit`: the elements of what is complete in open entities.
* `Reader.Mirrors.finished`: the elements of the other expressions of a state.
-/

namespace Formulary

open Nest Formulary.Frame

variable {ops : List String} {tree : Tree} {e : OpenEntity} {es : List OpenEntity}
  {inner : List EntityId}

/-- The elements of open entities do not depend on what is open in the innermost of them. -/
theorem widths_block (e : OpenEntity) (es : List OpenEntity) (inner : List EntityId) :
    widths (outerCells es ++ block 0 e.frame (entityFrames es) inner) = first (e :: es) := by
  rw [widths_append, first, show outerCells (e :: es) = outerCells es ++
    block 0 e.frame (entityFrames es) [place (e :: es)] from rfl, widths_append]
  rfl

theorem first_cons (e : OpenEntity) (es : List OpenEntity) : first (e :: es) = first es +
    widths (Rose.rowCells (place es) (place es + 1) (EntityOutline.roses e.closed)) := by
  rw [← widths_block e es [], widths_append, block, widths]
  rw [show e.frame.label.width = 0 from e.width_label, Nat.zero_add]
  rfl

theorem laid_closed (h : tree.Laid 0 0 (outerCells es ++ block 0 e.frame (entityFrames es) inner)) :
    tree.Laid (place es + 1) (first es)
      (Rose.rowCells (place es) (place es + 1) (EntityOutline.roses e.closed)) := by
  have hblock := h.append.2.cons.2
  rw [show 0 + (outerCells es).length = place es from length_outer 0 (entityFrames es),
    show e.frame.label.width = 0 from e.width_label, Nat.add_zero, Nat.zero_add] at hblock
  exact hblock

theorem elementsFit_cons (h : tree.ElementsFit ops 0 (first es))
    (h' : tree.ElementsFit ops (first es)
      (widths (Rose.rowCells (place es) (place es + 1) (EntityOutline.roses e.closed)))) :
    tree.ElementsFit ops 0 (first (e :: es)) := by
  rw [first_cons]
  refine h.append ?_
  rw [Nat.zero_add]
  exact h'

theorem Begun.elementsFit {opened : List OpenEntity} (h : Begun ops opened) {e : OpenEntity}
    {es : List OpenEntity} (hopened : opened = e :: es) {inner : List EntityId}
    (hlaid : tree.Laid 0 0 (outerCells es ++ block 0 e.frame (entityFrames es) inner)) :
    tree.ElementsFit ops 0 (first (e :: es)) := by
  induction h generalizing e es inner with
  | root ht hms =>
    cases hopened
    refine elementsFit_cons (Tree.elementsFit_zero 0) ?_
    exact (Binding.fits_members _ hms (laid_closed hlaid)).elements
  | sect h' hb ht hms ih =>
    cases hopened
    refine elementsFit_cons (ih rfl hlaid.append.1) ?_
    exact (Binding.fits_members _ hms (laid_closed hlaid)).elements
  | array h' hb hitems ih =>
    cases hopened
    refine elementsFit_cons (ih rfl hlaid.append.1) ?_
    exact (Entry.fits_items _ hitems (laid_closed hlaid)).elements

theorem Untitled.elementsFit (h : Untitled ops (.entity e es))
    (hlaid : tree.Laid 0 0 (outerCells es ++ block 0 e.frame (entityFrames es) inner)) :
    tree.ElementsFit ops 0 (first (e :: es)) := by
  cases h with
  | root => exact Tree.elementsFit_zero 0
  | inner h' hb =>
    exact elementsFit_cons (h'.elementsFit rfl hlaid.append.1) (Tree.elementsFit_zero _)

/-! ## States -/

/-- What is around the current entity or the current expression. -/
inductive Around (ops : List String) : Nest → Prop where
  | begun {n : Nest} : Begun ops n.opened → Around ops n
  | untitled {n : Nest} : Untitled ops n → Around ops n
  | done {d : Document} : d.valid ops → Around ops (.done d.outline)

theorem Closed.around {n : Nest} (h : Closed ops n) : Around ops n := by
  cases h with
  | inner h' _ => exact .begun h'
  | root hd => exact .done hd

theorem InRow.around {P : Nat → List ElementOutline → Prop} {n : Nest} (h : InRow ops P n) :
    Around ops n := by
  cases h with
  | mk h' _ _ _ => exact .begun h'

theorem Nested.Staged.around {s : Nested} (h : s.Staged ops) : Around ops s.nest := by
  obtain ⟨p, n, b, token, m⟩ := s
  cases h with
  | start => exact .untitled .root
  | sectionMark hn | sectionTitle hn _ => exact .untitled hn
  | sectionOpen h' | memberEnd h' | memberName h' _ | memberEquals h' _ | arrayOpen h'
  | arrayComma h' | arrayClose h' _ | callOpen h' _ _ | callComma h' _ _ _ => exact .begun h'
  | sectionClose hn => exact hn.around
  | parenOpen hn | string hn _ | stringEscape hn _ | minus hn | number hn _ | numberPoint hn _
  | numberFraction hn _ | identifier hn _ | parenClose hn | stringEnd hn | operator hn =>
    exact hn.around
  | final hd => exact .done hd

namespace Reader

variable {r : Reader} {s : Nested} {n : Nest}

theorem Shows.laid (h : r.Shows n) (hn : n.opened = e :: es) :
    ∃ inner, r.tree.Laid 0 0 (outerCells es ++ block 0 e.frame (entityFrames es) inner) := by
  have hentities := h.entities
  have helements := h.elements
  cases n with
  | entity e' es' =>
    cases hn
    refine ⟨[], [], [], [], [], rfl, rfl, ?_, ?_⟩
    · rw [List.append_nil]
      exact hentities
    · rw [List.append_nil]
      exact helements
  | row e' es' name f =>
    cases hn
    exact ⟨[place (e :: es)], [], _, [], _, rfl, rfl, hentities, helements⟩
  | done root => cases hn

theorem Shows.exists_elements (h : r.Shows n) (hn : n.opened = e :: es) :
    ∃ rest, r.tree.plainElements = elementsOf 0 0 (outerCells (e :: es)) ++ rest := by
  have helements := h.elements
  cases n with
  | entity e' es' =>
    cases hn
    refine ⟨[], ?_⟩
    rw [List.append_nil, ← elementsOf_cells]
    exact helements
  | row e' es' name f =>
    cases hn
    exact ⟨_, helements⟩
  | done root => cases hn

/-- Nothing is open in the elements before the current expression. -/
theorem Shows.openParens_of_lt (h : r.Shows n) (hn : n.opened = e :: es) {id : ElementId}
    (hlt : id < first (e :: es)) : (r.tree.element id).openParens = 0 := by
  obtain ⟨rest, helements⟩ := h.exists_elements hn
  rw [← length_elements_first] at hlt
  exact (elementsOf_spec 0 0 _ _ (Tree.element_mem helements hlt)).2.2

theorem Shows.lt_first (h : r.Shows n) (hn : n.opened = e :: es) {id : ElementId}
    (hid : id < r.tree.elements.size) (hne : (r.tree.element id).expression ≠ r.current) :
    id < first (e :: es) := by
  cases n with
  | entity e' es' =>
    cases hn
    rwa [← h.elements_size]
  | row e' es' name f =>
    cases hn
    refine Nat.lt_of_not_le fun hle => hne ?_
    rw [h.tables.elements_size, ← length_cells] at hid
    rw [h.placed.expression_eq id hle hid]
    exact h.current.symm
  | done root => cases hn

/-- The elements of other expressions than the current one fit, and nothing is open in them. -/
theorem Mirrors.finished (h : r.Mirrors ops s) (hs : s.Staged ops) {id : ElementId}
    (hid : id < r.tree.elements.size) (hne : (r.tree.element id).expression ≠ r.current) :
    r.tree.ElementFits ops id ∧ (r.tree.element id).openParens = 0 := by
  have hshows := h.shows
  have hopen : ∀ e es, s.nest.opened = e :: es → r.tree.ElementsFit ops 0 (first (e :: es)) →
      r.tree.ElementFits ops id ∧ (r.tree.element id).openParens = 0 := by
    intro e es hn hfits
    have hlt := hshows.lt_first hn hid hne
    refine ⟨hfits id (Nat.zero_le _) ?_, hshows.openParens_of_lt hn hlt⟩
    rwa [Nat.zero_add]
  have haround := hs.around
  generalize hnest : s.nest = n at haround
  cases haround with
  | begun hbegun =>
    rw [← hnest] at hbegun
    cases hopened : s.nest.opened with
    | nil =>
      rw [hopened] at hbegun
      cases hbegun
    | cons e es =>
      obtain ⟨inner, hlaid⟩ := hshows.laid hopened
      exact hopen e es hopened (hbegun.elementsFit hopened hlaid)
  | untitled huntitled =>
    obtain ⟨e, es, rfl⟩ : ∃ e es, n = .entity e es := by
      cases huntitled <;> exact ⟨_, _, rfl⟩
    have hopened : s.nest.opened = e :: es := by
      rw [hnest]
      rfl
    obtain ⟨inner, hlaid⟩ := hshows.laid hopened
    exact hopen e es hopened (huntitled.elementsFit hlaid)
  | @done d hd =>
    rw [hnest] at hshows
    refine ⟨(Tree.wellFormed_of_tables hd hshows.entities hshows.elements).elements id hid, ?_⟩
    exact Tree.openParens_of_outline hshows.elements hid

end Reader

end Formulary

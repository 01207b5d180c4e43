import Formulary.Proofs.Reader.Simulation
import Formulary.Proofs.Tree.Depths

/-!
# What the counts of an expression say

In the middle of a reading every element of the current expression counts the parentheses that are
open under it, and the expression counts all of them together.

* `Nested.Staged.rowPart`: what has been read of the innermost row.
* `CallsOpen.parensFit`: the elements around the innermost row.
* `Reader.Shows.parensFit`: the elements of the current expression.
* `Reader.Shows.openSum_eq`: their counts together.
-/

namespace Formulary

open Nest OpenFormula Formulary.Frame

variable {ops : List String} {tree : Tree} {owner base : Nat} {path : List ElementId}

/-! ## The innermost row -/

/-- What has been read of a row, before a term or after one. -/
def RowPart (ops : List String) (parens : Nat) (row : List ElementOutline) : Prop :=
  Expecting ops parens row ∨ Complete ops parens row

theorem RowPart.unclosed {parens : Nat} {row : List ElementOutline} (h : RowPart ops parens row) :
    ElementOutline.unclosed row 0 = some parens := by
  rcases h with h | h
  · exact h.unclosed
  · exact h.unclosed

theorem RowPart.rested {parens parent id : Nat} {row : List ElementOutline}
    (h : RowPart ops parens row) (hrow : tree.PlacedRow owner parent id row) :
    tree.Rested id (Rose.sizes (ElementOutline.roses row)) := by
  rcases h with h | h
  · exact h.rested hrow
  · exact h.rested hrow

/-- The calls and the row that are open in an expression. -/
structure FormulaPart (ops : List String) (f : OpenFormula) : Prop where
  outer : CallsOpen ops f.outer
  inner : RowPart ops f.inner.parens f.inner.row

theorem InRow.part {P : Nat → List ElementOutline → Prop} {e : OpenEntity} {es : List OpenEntity}
    {name : Option String} {f : OpenFormula} (h : InRow ops P (.row e es name f))
    (hP : ∀ parens row, P parens row → RowPart ops parens row) : FormulaPart ops f := by
  cases h with
  | mk _ _ hcalls hrow => exact ⟨hcalls, hP _ _ hrow⟩

/-- An expression that is under way begins a valid one. -/
theorem Nested.Staged.part {s : Nested} {e : OpenEntity} {es : List OpenEntity}
    {name : Option String} {f : OpenFormula} (h : s.Staged ops) (hn : s.nest = .row e es name f) :
    FormulaPart ops f := by
  obtain ⟨p, n, b, token, m⟩ := s
  obtain rfl : n = _ := hn
  cases h with
  | sectionMark hn | sectionTitle hn _ | sectionClose hn => cases hn
  | parenOpen hn | string hn _ | stringEscape hn _ | minus hn | number hn _ | numberPoint hn _
  | numberFraction hn _ | identifier hn _ => exact hn.part fun _ _ => .inl
  | parenClose hn | stringEnd hn | operator hn => exact hn.part fun _ _ => .inr
  | callOpen _ _ hcalls => exact ⟨hcalls, .inl .nil⟩
  | callComma _ _ hcalls hrow => exact ⟨hcalls, .inr hrow⟩

/-! ## The frames -/

theorem RowPart.parensFit {parens : Nat} {i : OpenRow} {kind : ElementKind}
    {fs : List (Frame ElementLabel)} {inner : List Nat} (h : RowPart ops i.parens i.row)
    (hblock : tree.Placed owner (next base fs) (block base (rowFrame kind parens i) fs inner))
    (hbeside : ∀ p, next base fs < p → p < next base (rowFrame kind parens i :: fs) → p ∉ path)
    (hinner : ∀ id ∈ inner, (tree.element id).kind ≠ .symbol)
    (hparens : parens = i.parens + if tree.inCall path inner then 1 else 0) :
    ∀ e, next base fs ≤ e → e < next base (rowFrame kind parens i :: fs) →
      tree.ParensFit path e := by
  have hrow : tree.PlacedRow owner (next base fs) (next base fs + 1) i.row := hblock.cons.2
  refine hblock.parensFit_block hbeside (h.rested hrow) ?_ hparens
  have hclosed : tree.unclosed (Rose.places (next base fs + 1) (ElementOutline.roses i.row)) 0 =
      some i.parens := (hrow.unclosed 0).trans h.unclosed
  rw [Tree.unclosed_append]
  exact (congrArg (Option.bind · _) hclosed).trans (Tree.unclosed_of_ne hinner i.parens)

theorem parensFit_call {call : OpenCall} {fs : List Formula} {frames : List (Frame ElementLabel)}
    {inner : List Nat} (hfs : Formula.allValid ops fs) (hdone : call.done = Formula.rows fs)
    (hblock : tree.Placed owner (next base frames) (block base (callFrame call) frames inner))
    (hbeside : ∀ p, next base frames < p → p < next base (callFrame call :: frames) → p ∉ path)
    (hinner : ∀ id ∈ inner, (tree.element id).kind = .argument) :
    ∀ e, next base frames ≤ e → e < next base (callFrame call :: frames) →
      tree.ParensFit path e := by
  have hrow : tree.PlacedRow owner (next base frames) (next base frames + 1)
      (call.done.map wrapper) := hblock.cons.2
  have harguments : ∀ id ∈ Rose.places (next base frames + 1)
      (ElementOutline.roses (call.done.map wrapper)), (tree.element id).kind = .argument := by
    intro id hid
    obtain ⟨o, ho, hkind⟩ := hrow.exists_outline id hid
    obtain ⟨row, -, rfl⟩ := List.mem_map.mp ho
    exact hkind
  have hfits : tree.ElementsFit ops (next base frames + 1)
      (Rose.sizes (ElementOutline.roses (call.done.map wrapper))) := by
    rw [hdone] at hrow ⊢
    exact Formula.fits_arguments fs hfs hrow
  refine hblock.parensFit_block hbeside (hrow.rested hfits) (n := 0) ?_ ?_
  · refine Tree.unclosed_of_ne (List.forall_mem_append.mpr ⟨fun id hid => ?_, fun id hid => ?_⟩) 0
    · rw [harguments id hid]
      decide
    · rw [hinner id hid]
      decide
  · rw [Tree.inCall_of_ne]
    · rfl
    · intro id hid
      rw [hinner id hid]
      decide

theorem CallsOpen.parensFit {outer : List (OpenCall × OpenRow)} (h : CallsOpen ops outer)
    (hplaced : tree.Placed owner base (Frame.outer base (outerFrames outer)))
    (hinner : (tree.element (next base (outerFrames outer))).kind = rowKind outer)
    (gs : List (Frame ElementLabel)) :
    ∀ e, base ≤ e → e < next base (outerFrames outer) →
      tree.ParensFit (spine base (gs ++ outerFrames outer)) e := by
  induction h generalizing gs with
  | nil => exact fun e hle hlt => absurd hlt (Nat.not_lt_of_le hle)
  | @cons call o outer fs hname hfs hdone ho houter ih =>
    intro e hle hlt
    let row := rowFrame (rowKind outer) (o.parens + 1) o
    have hframes : outerFrames ((call, o) :: outer) = callFrame call :: row :: outerFrames outer :=
      rfl
    rw [hframes] at hplaced hlt hinner ⊢
    rw [Frame.outer, Frame.outer] at hplaced
    obtain ⟨hrows, hcall⟩ := hplaced.append
    rw [← Frame.outer, Frame.length_outer] at hcall
    obtain ⟨hrest, hrow⟩ := hrows.append
    rw [Frame.length_outer] at hrow
    have hkindRow : (tree.element (next base (outerFrames outer))).kind = rowKind outer :=
      congrArg Element.kind hrow.cons.1
    have hkindCall : (tree.element (next base (row :: outerFrames outer))).kind = .function :=
      congrArg Element.kind hcall.cons.1
    by_cases hbefore : e < next base (outerFrames outer)
    · have hfit := ih hrest hkindRow (gs ++ [callFrame call, row]) e hle hbefore
      rwa [List.append_assoc] at hfit
    by_cases hin : e < next base (row :: outerFrames outer)
    · refine RowPart.parensFit (i := o) (.inl ho) hrow (fun p hp hp' => ?_) ?_ ?_ e (by omega) hin
      · have hbeside := not_mem_spine hp hp' (gs ++ [callFrame call])
        rwa [List.append_assoc] at hbeside
      · rw [List.forall_mem_singleton, hkindCall]
        decide
      · have hmem : next base (row :: outerFrames outer) ∈
            spine base (gs ++ callFrame call :: row :: outerFrames outer) := next_mem_spine gs _ _
        simp [Tree.inCall, hkindCall, hmem]
    · refine parensFit_call hfs hdone hcall (fun p hp hp' => ?_) ?_ e (by omega) hlt
      · exact not_mem_spine hp hp' gs
      · rw [List.forall_mem_singleton]
        exact hinner

/-! ## Sums -/

theorem expression_ne (es : List OpenEntity) :
    ∀ x ∈ elementsOf 0 0 (outerCells es), x.expression ≠ place es := by
  intro x hx
  obtain ⟨-, hlt, -⟩ := elementsOf_spec 0 0 _ x hx
  rw [outerCells, Frame.length_outer] at hlt
  exact Nat.ne_of_lt hlt

theorem labelSum_block (f : Frame ElementLabel) (fs : List (Frame ElementLabel))
    (inner : List Nat) {row : List ElementOutline} (h : f.closed = ElementOutline.roses row) :
    labelSum (block base f fs inner) = f.label.openParens := by
  rw [block, labelSum, h, labelSum_eq_zero (Tree.openParens_rowCells row), Nat.add_zero]

theorem labelSum_outer (outer : List (OpenCall × OpenRow)) :
    labelSum (Frame.outer base (outerFrames outer)) = outerDepth outer := by
  induction outer with
  | nil => rfl
  | cons co outer ih =>
    obtain ⟨call, o⟩ := co
    rw [outerFrames, Frame.outer, Frame.outer, labelSum_append, labelSum_append, ih,
      labelSum_block _ _ _ rfl, labelSum_block _ _ _ rfl, outerDepth]
    show outerDepth outer + (o.parens + 1) + 0 = _
    omega

theorem labelSum_frames (f : OpenFormula) : labelSum (Frame.cells base f.frames) = f.depth := by
  rw [frames, Frame.cells, labelSum_append, labelSum_outer, labelSum_block _ _ _ rfl,
    OpenFormula.depth]
  exact Nat.add_comm _ _

namespace Reader

variable {r : Reader} {e : OpenEntity} {es : List OpenEntity} {name : Option String}
  {f : OpenFormula}

/-! ## The current expression -/

theorem Shows.placed (h : r.Shows (.row e es name f)) :
    r.tree.Placed (place (e :: es)) (first (e :: es)) (Frame.cells (first (e :: es)) f.frames) := by
  refine ⟨_, [], length_elements_first (e :: es), ?_⟩
  rw [List.append_nil]
  exact h.elements

/-- The elements of the current expression are the last ones of the table. -/
theorem Shows.first_le (h : r.Shows (.row e es name f)) {id : ElementId}
    (hid : (r.tree.element id).expression = r.current) : first (e :: es) ≤ id := by
  refine Nat.le_of_not_lt fun hlt => ?_
  rw [← length_elements_first] at hlt
  have hmem := Tree.element_mem h.elements hlt
  have hcurrent : r.current = place (e :: es) := h.current
  exact expression_ne (e :: es) _ hmem (hid.trans hcurrent)

/-- Every element of the current expression counts what is open under it. -/
theorem Shows.parensFit (h : r.Shows (.row e es name f)) (hf : FormulaPart ops f) {id : ElementId}
    (hlt : id < r.tree.elements.size) (hid : (r.tree.element id).expression = r.current) :
    r.tree.ParensFit (spine (first (e :: es)) f.frames) id := by
  have hle := h.first_le hid
  rw [h.tables.elements_size] at hlt
  obtain ⟨houter, hinner⟩ := h.placed.append
  rw [Frame.length_outer] at hinner
  by_cases hbefore : id < next (first (e :: es)) (outerFrames f.outer)
  · have hkind := congrArg Element.kind hinner.cons.1
    exact hf.outer.parensFit houter hkind [_] id hle hbefore
  · refine hf.inner.parensFit hinner (fun p hp hp' => ?_) (fun _ hid => nomatch hid) rfl id
      (Nat.le_of_not_lt hbefore) hlt
    exact not_mem_spine hp hp' []

theorem Shows.element_path (h : r.Shows (.row e es name f)) :
    r.tree.elementLinks.Path (next (first (e :: es)) (outerFrames f.outer))
      (spine (first (e :: es)) f.frames) := by
  refine path_spine fun g fs hsuffix => ?_
  obtain ⟨gs, heq⟩ := hsuffix
  have htables := h.tables
  rw [show f.frames = gs ++ g :: fs from heq.symm] at htables
  exact htables.parent_at gs

theorem frames_kind (i : OpenRow) (outer : List (OpenCall × OpenRow)) (parens : Nat) :
    ∃ gs g, rowFrame (rowKind outer) parens i :: outerFrames outer = gs ++ [g] ∧
      g.label.kind = .node := by
  induction outer generalizing i parens with
  | nil => exact ⟨[], _, rfl, rfl⟩
  | cons co outer ih =>
    obtain ⟨call, o⟩ := co
    obtain ⟨gs, g, heq, hkind⟩ := ih o (o.parens + 1)
    refine ⟨rowFrame .argument parens i :: callFrame call :: gs, g, ?_, hkind⟩
    rw [outerFrames, heq]
    rfl

theorem Shows.root_kind (h : r.Shows (.row e es name f)) :
    (r.tree.element (first (e :: es))).kind = .node := by
  obtain ⟨gs, g, heq, hkind⟩ := frames_kind f.inner f.outer f.inner.parens
  have htables := h.tables
  rw [show f.frames = gs ++ [g] from heq] at htables
  obtain ⟨children, hc⟩ := htables.element_at gs
  exact (congrArg Element.kind hc).trans hkind

/-- The current expression counts what its elements count. -/
theorem Shows.openSum_eq (h : r.Shows (.row e es name f)) :
    openSum r.current r.tree.elements.toList = f.depth := by
  rw [← openSum_unplaced, show r.current = place (e :: es) from h.current]
  refine (congrArg (openSum _) h.elements).trans ?_
  rw [Nest.elements, openSum_append, openSum_of_ne (expression_ne (e :: es)), Nat.zero_add,
    openSum_cells, labelSum_frames]

end Reader

end Formulary

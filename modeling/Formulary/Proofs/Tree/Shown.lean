import Formulary.Proofs.Layout.Placed
import Formulary.Proofs.Tree.WellFormed

/-!
# Trees that show a valid document

* `Formula.forms`: elements with the outlines of a formula make up a row.
* `Formula.fits`, `Entry.fits`: the nodes of a formula and of an entry fit.
* `Tree.wellFormed_of_tables`: a tree with the tables of a valid document is well formed.
-/

namespace Formulary

variable {ops : List String} {tree : Tree}

/-! ## Rows -/

mutual

theorem Term.forms {n : Nat} : ∀ (t : Term) {ids : List ElementId},
    ids.map (tree.elementOutline n) = t.row → tree.FormsTerm ids
  | .number text, ids, h => by
    obtain ⟨id, rfl, hid⟩ := List.map_eq_singleton_iff.mp h
    exact .number (Tree.kind_of_elementOutline hid)
  | .string text, ids, h => by
    obtain ⟨id, rfl, hid⟩ := List.map_eq_singleton_iff.mp h
    exact .string (Tree.kind_of_elementOutline hid)
  | .name text, ids, h => by
    obtain ⟨id, rfl, hid⟩ := List.map_eq_singleton_iff.mp h
    exact .identifier (Tree.kind_of_elementOutline hid)
  | .call function arguments, ids, h => by
    obtain ⟨id, rfl, hid⟩ := List.map_eq_singleton_iff.mp h
    exact .function (Tree.kind_of_elementOutline hid)
  | .paren inside, ids, h => by
    rw [Term.row] at h
    obtain ⟨opening, rest, rfl, hopening, hrest⟩ := List.map_eq_cons_iff.mp h
    obtain ⟨ids, last, rfl, hids, hlast⟩ := List.map_eq_append_iff.mp hrest
    obtain ⟨closing, rfl, hclosing⟩ := List.map_eq_singleton_iff.mp hlast
    exact .paren (Tree.kind_of_elementOutline hopening) (Tree.text_of_elementOutline hopening)
      (Formula.forms inside hids) (Tree.kind_of_elementOutline hclosing)
      (Tree.text_of_elementOutline hclosing)

/-- Elements with the outlines of a formula make up a row. -/
theorem Formula.forms {n : Nat} : ∀ (f : Formula) {ids : List ElementId},
    ids.map (tree.elementOutline n) = f.row → tree.FormsRow ids
  | .term t, ids, h => .term (Term.forms t h)
  | .operate left operator right, ids, h => by
    rw [Formula.row] at h
    obtain ⟨ids, rest, rfl, hids, hrest⟩ := List.map_eq_append_iff.mp h
    obtain ⟨id, ids', rfl, hid, hids'⟩ := List.map_eq_cons_iff.mp hrest
    exact .operate (Formula.forms left hids) (Tree.kind_of_elementOutline hid)
      (Term.forms right hids')

end

theorem Term.row_ne_nil (t : Term) : t.row ≠ [] := by
  cases t <;> simp [Term.row]

theorem Formula.row_ne_nil (f : Formula) : f.row ≠ [] := by
  cases f with
  | term t => exact t.row_ne_nil
  | operate left operator right => simp [Formula.row]

/-! ## Elements -/

namespace Tree

/-- The elements from the place `id` on fit, as many as `n`. -/
def ElementsFit (ops : List String) (tree : Tree) (id n : Nat) : Prop :=
  ∀ i, id ≤ i → i < id + n → tree.ElementFits ops i

theorem elementsFit_zero (id : Nat) : tree.ElementsFit ops id 0 := fun _ _ _ => by omega

theorem ElementsFit.append {id n m : Nat} (h : tree.ElementsFit ops id n)
    (h' : tree.ElementsFit ops (id + n) m) : tree.ElementsFit ops id (n + m) := by
  intro i hle hlt
  rcases Nat.lt_or_ge i (id + n) with hi | hi
  · exact h i hle hi
  · exact h' i hi (by omega)

theorem ElementsFit.cons {id n : Nat} (h : tree.ElementFits ops id)
    (h' : tree.ElementsFit ops (id + 1) n) : tree.ElementsFit ops id (n + 1) := by
  intro i hle hlt
  rcases Nat.eq_or_lt_of_le hle with rfl | hi
  · exact h
  · exact h' i hi (by omega)

theorem PlacedNode.leaf {owner id : Nat} {kind : ElementKind} {text : String}
    (h : tree.PlacedNode owner id kind text []) : (tree.element id).children = #[] := h.children

/-- A leaf fits if its kind allows its text. -/
theorem PlacedNode.fits_leaf {owner id : Nat} {kind : ElementKind} {text : String}
    (h : tree.PlacedNode owner id kind text [])
    (hfits : (tree.element id).kind = kind → (tree.element id).text = text →
      (tree.element id).children = #[] → tree.KindFits ops (tree.element id)) :
    tree.ElementFits ops id :=
  ⟨h.inside, h.ordered, h.parent_eq, hfits h.kind h.text h.leaf⟩

end Tree

theorem Formula.mem_rows {fs : List Formula} {row : List ElementOutline}
    (h : row ∈ Formula.rows fs) : ∃ f ∈ fs, f.row = row := by
  induction fs with
  | nil => cases h
  | cons f fs ih =>
    rw [Formula.rows, List.mem_cons] at h
    rcases h with rfl | h
    · exact ⟨f, List.mem_cons_self, rfl⟩
    · obtain ⟨g, hg, hrow⟩ := ih h
      exact ⟨g, List.mem_cons_of_mem f hg, hrow⟩

/-- A call with arguments fits: each of them has elements. -/
theorem Formula.call_fits {owner id : Nat} {function : String} (f : Formula) (fs : List Formula)
    (h : tree.PlacedNode owner id .function function
      ((Formula.rows (f :: fs)).map (ElementOutline.mk .argument ""))) :
    tree.CallFits (tree.element id) := by
  have hshow : ∀ a ∈ (tree.element id).children, ∃ g : Formula,
      tree.elementOutline (tree.elements.size + 1) a = .mk .argument "" g.row := by
    intro a ha
    obtain ⟨row, hrow, heq⟩ := List.mem_map.mp (h.outline_mem (Nat.le_succ _) ha)
    obtain ⟨g, -, rfl⟩ := Formula.mem_rows hrow
    exact ⟨g, heq.symm⟩
  constructor
  · rw [h.children, Formula.rows, List.map_cons, ElementOutline.roses, Rose.places_cons]
    simp
  · intro a ha
    obtain ⟨g, hg⟩ := hshow a ha
    exact Tree.kind_of_elementOutline hg
  · intro a ha hnil
    obtain ⟨g, hg⟩ := hshow a ha
    rw [Tree.elementOutline, hnil] at hg
    injection hg with _ _ hrow
    exact absurd hrow.symm g.row_ne_nil

/-- A call without arguments fits: its wrapper is the only one. -/
theorem Formula.call_fits_nil {owner id : Nat} {function : String}
    (h : tree.PlacedNode owner id .function function [.mk .argument "" []]) :
    tree.CallFits (tree.element id) := by
  have hchildren : (tree.element id).children = #[id + 1] := h.children
  constructor
  · simp [hchildren]
  · simp [hchildren, h.under.cons.1.kind]
  · simp [hchildren]

mutual

/-- The elements of a valid term fit. -/
theorem Term.fits {owner parent id : Nat} : ∀ (t : Term), t.valid ops →
    tree.PlacedRow owner parent id t.row →
    tree.ElementsFit ops id (Rose.sizes (ElementOutline.roses t.row))
  | .number text, hv, h => by
    rw [Term.valid] at hv
    refine .cons (h.cons.1.fits_leaf fun hkind htext hchildren => ?_) (Tree.elementsFit_zero _)
    simp [Tree.KindFits, hkind, htext, hchildren, hv]
  | .string text, hv, h => by
    refine .cons (h.cons.1.fits_leaf fun hkind htext hchildren => ?_) (Tree.elementsFit_zero _)
    simp [Tree.KindFits, hkind, hchildren]
  | .name text, hv, h => by
    rw [Term.valid] at hv
    refine .cons (h.cons.1.fits_leaf fun hkind htext hchildren => ?_) (Tree.elementsFit_zero _)
    simp [Tree.KindFits, hkind, htext, hchildren, hv]
  | .call function arguments, hv, h => by
    rw [Term.valid, Bool.and_eq_true] at hv
    cases arguments with
    | nil =>
      obtain ⟨hcall, -⟩ := h.cons
      obtain ⟨hwrapper, -⟩ := hcall.under.cons
      have hfunction : tree.ElementFits ops id := by
        refine ⟨hcall.inside, hcall.ordered, hcall.parent_eq, ?_⟩
        rw [Tree.KindFits, hcall.kind, hcall.text]
        exact ⟨hv.1, Formula.call_fits_nil hcall⟩
      refine .cons hfunction (.cons (hwrapper.fits_leaf fun hkind htext hchildren => ?_)
        (Tree.elementsFit_zero _))
      simp [Tree.KindFits, hkind, htext, hchildren]
    | cons f fs =>
      have h : tree.PlacedRow owner parent id
          [.mk .function function ((Formula.rows (f :: fs)).map (.mk .argument ""))] := h
      obtain ⟨hcall, -⟩ := h.cons
      have hfunction : tree.ElementFits ops id := by
        refine ⟨hcall.inside, hcall.ordered, hcall.parent_eq, ?_⟩
        rw [Tree.KindFits, hcall.kind, hcall.text]
        exact ⟨hv.1, Formula.call_fits f fs hcall⟩
      exact .cons hfunction (Formula.fits_arguments (f :: fs) hv.2 hcall.under)
  | .paren inside, hv, h => by
    rw [Term.valid] at hv
    rw [Term.row] at h ⊢
    obtain ⟨hopening, hrest⟩ := h.cons
    obtain ⟨hinside, hlast⟩ := hrest.append
    obtain ⟨hclosing, -⟩ := hlast.cons
    rw [ElementOutline.roses, ElementOutline.roses_append, Rose.sizes_cons, Rose.sizes_append]
    refine .append (.cons (hopening.fits_leaf fun hkind htext hchildren => ?_)
      (Tree.elementsFit_zero _)) (.append (Formula.fits inside hv hinside) (.cons
        (hclosing.fits_leaf fun hkind htext hchildren => ?_) (Tree.elementsFit_zero _)))
    · simp [Tree.KindFits, hkind, htext, hchildren]
    · simp [Tree.KindFits, hkind, htext, hchildren]

/-- The elements of a valid formula fit. -/
theorem Formula.fits {owner parent id : Nat} : ∀ (f : Formula), f.valid ops →
    tree.PlacedRow owner parent id f.row →
    tree.ElementsFit ops id (Rose.sizes (ElementOutline.roses f.row))
  | .term t, hv, h => by
    rw [Formula.valid] at hv
    exact Term.fits t hv h
  | .operate left operator right, hv, h => by
    rw [Formula.valid, Bool.and_eq_true, Bool.and_eq_true] at hv
    rw [Formula.row] at h ⊢
    obtain ⟨hleft, hrest⟩ := h.append
    obtain ⟨hoperator, hright⟩ := hrest.cons
    rw [ElementOutline.roses_append, ElementOutline.roses, Rose.sizes_append, Rose.sizes_cons]
    refine .append (Formula.fits left hv.1.1 hleft) (.append (.cons
      (hoperator.fits_leaf fun hkind htext hchildren => ?_) (Tree.elementsFit_zero _))
      (Term.fits right hv.2 hright))
    rw [Tree.KindFits, hkind, htext]
    exact ⟨hv.1.2, hchildren⟩

/-- The elements of the arguments of a call fit. -/
theorem Formula.fits_arguments {owner parent id : Nat} : ∀ (fs : List Formula),
    Formula.allValid ops fs →
    tree.PlacedRow owner parent id ((Formula.rows fs).map (ElementOutline.mk .argument "")) →
    tree.ElementsFit ops id
      (Rose.sizes (ElementOutline.roses ((Formula.rows fs).map (ElementOutline.mk .argument ""))))
  | [], _, _ => Tree.elementsFit_zero _
  | f :: fs, hv, h => by
    rw [Formula.allValid, Bool.and_eq_true] at hv
    rw [Formula.rows, List.map_cons] at h ⊢
    obtain ⟨hwrapper, hrest⟩ := h.cons
    rw [ElementOutline.roses, Rose.sizes_cons, ElementOutline.rose, Rose.size_node]
    refine .append (.cons ⟨hwrapper.inside, hwrapper.ordered, hwrapper.parent_eq, ?_⟩
      (Formula.fits f hv.1 hwrapper.under)) (Formula.fits_arguments fs hv.2 hrest)
    rw [Tree.KindFits, hwrapper.kind]
    exact ⟨hwrapper.text, .inr (Formula.forms f (hwrapper.outlines (Nat.le_refl _)))⟩

end

/-! ## Entities -/

namespace Tree

/-- The entities from the place `id` on fit, as many as `n`, and so do the elements from the place
`first` on, as many as `m`. -/
structure NodesFit (ops : List String) (tree : Tree) (id n first m : Nat) : Prop where
  entities : ∀ i, id ≤ i → i < id + n → tree.EntityFits i
  elements : tree.ElementsFit ops first m

theorem nodesFit_zero (id first : Nat) : tree.NodesFit ops id 0 first 0 :=
  ⟨fun _ _ _ => by omega, elementsFit_zero first⟩

theorem NodesFit.append {id n n' first m m' : Nat} (h : tree.NodesFit ops id n first m)
    (h' : tree.NodesFit ops (id + n) n' (first + m) m') :
    tree.NodesFit ops id (n + n') first (m + m') := by
  refine ⟨fun i hle hlt => ?_, h.elements.append h'.elements⟩
  rcases Nat.lt_or_ge i (id + n) with hi | hi
  · exact h.entities i hle hi
  · exact h'.entities i hi (by omega)

theorem NodesFit.cons {id n first m : Nat} (h : tree.EntityFits id)
    (h' : tree.NodesFit ops (id + 1) n first m) : tree.NodesFit ops id (n + 1) first m := by
  refine ⟨fun i hle hlt => ?_, h'.elements⟩
  rcases Nat.eq_or_lt_of_le hle with rfl | hi
  · exact h
  · exact h'.entities i hi (by omega)

variable {id first parent : Nat} {os : List EntityOutline}

/-- The entities that are laid out in another one are in the table. -/
theorem Laid.inside (h : tree.Laid (id + 1) first
    (Rose.rowCells parent (id + 1) (EntityOutline.roses os))) :
    ∀ c ∈ (Rose.places (id + 1) (EntityOutline.roses os)).toArray, c < tree.entities.size := by
  intro c hc
  have hle := h.le_size
  rw [Rose.length_rowCells] at hle
  exact Nat.lt_of_lt_of_le (Rose.lt_of_mem_places (List.mem_toArray.mp hc)) hle

/-- Each of them shows one of the outlines. -/
theorem Laid.exists_name (h : tree.Laid (id + 1) first
    (Rose.rowCells parent (id + 1) (EntityOutline.roses os))) :
    ∀ c ∈ (Rose.places (id + 1) (EntityOutline.roses os)).toArray,
      ∃ o ∈ os, (tree.entity c).name = o.name := by
  intro c hc
  refine ⟨tree.entityOutline tree.entities.size c, ?_, (name_entityOutline ..).symm⟩
  have houtlines := h.outlines
  rw [← houtlines]
  exact List.mem_map_of_mem (List.mem_toArray.mp hc)

end Tree

theorem Binding.name_outline {ms : List Binding} (h : Binding.allValid ops ms)
    {o : EntityOutline} (ho : o ∈ Binding.outlines ms) :
    ∃ name, o.name = some name ∧ isName name.toList := by
  induction ms with
  | nil => cases ho
  | cons m ms ih =>
    obtain ⟨name, v⟩ := m
    rw [Binding.allValid, Bool.and_eq_true, Binding.valid, Bool.and_eq_true] at h
    rw [Binding.outlines, List.mem_cons] at ho
    rcases ho with rfl | ho
    · refine ⟨name, ?_, h.1.1⟩
      cases v <;> rfl
    · exact ih h.2 ho

theorem Entry.name_outline {vs : List Entry} {o : EntityOutline} (ho : o ∈ Entry.outlines vs) :
    o.name = none := by
  induction vs with
  | nil => cases ho
  | cons v vs ih =>
    rw [Entry.outlines, List.mem_cons] at ho
    rcases ho with rfl | ho
    · cases v <;> rfl
    · exact ih ho

theorem widths_sect (name title : Option String) (children : List Nat) (parent : Option Nat)
    (cs : List (Cell EntityLabel)) :
    widths (⟨.sect name title, children, parent⟩ :: cs) = widths cs := Nat.zero_add _

theorem widths_array (name : Option String) (children : List Nat) (parent : Option Nat)
    (cs : List (Cell EntityLabel)) :
    widths (⟨.array name, children, parent⟩ :: cs) = widths cs := Nat.zero_add _

/-- A section of valid members fits. -/
theorem Tree.Laid.sect_fits {id first : Nat} {name : Option String} {title : String}
    {ms : List Binding} {parent : Option Nat} (ht : isName title.toList)
    (hms : Binding.allValid ops ms) (h : tree.Laid id first
      ((EntityOutline.sect name (some title) (Binding.outlines ms)).rose.cells parent id)) :
    tree.EntityFits id := by
  rw [EntityOutline.rose, Rose.cells_node] at h
  obtain ⟨he, hunder⟩ := h.cons
  have hcontent : (tree.entity id).content = .sect (some title)
      (Rose.places (id + 1) (EntityOutline.roses (Binding.outlines ms))).toArray :=
    congrArg Entity.content he
  constructor
  · rw [hcontent]
    exact hunder.inside
  · rw [hcontent]
    refine ⟨⟨title, rfl, ht⟩, fun m hm => ?_⟩
    obtain ⟨o, ho, hname⟩ := hunder.exists_name m hm
    rw [hname]
    exact Binding.name_outline hms ho

theorem Tree.Laid.array_fits {id first : Nat} {name : Option String} {vs : List Entry}
    {parent : Option Nat} (h : tree.Laid id first
      ((EntityOutline.array name (Entry.outlines vs)).rose.cells parent id)) :
    tree.EntityFits id := by
  rw [EntityOutline.rose, Rose.cells_node] at h
  obtain ⟨he, hunder⟩ := h.cons
  have hcontent : (tree.entity id).content =
      .array (Rose.places (id + 1) (EntityOutline.roses (Entry.outlines vs))).toArray :=
    congrArg Entity.content he
  constructor
  · rw [hcontent]
    exact hunder.inside
  · rw [hcontent]
    intro i hi
    obtain ⟨o, ho, hname⟩ := hunder.exists_name i hi
    rw [hname]
    exact Entry.name_outline ho

theorem Tree.Laid.expression_fits {id first : Nat} {name : Option String}
    {row : List ElementOutline} {parent : Option Nat} (h : tree.Laid id first
      ((EntityOutline.expression name row).rose.cells parent id)) : tree.EntityFits id := by
  rw [EntityOutline.rose, Rose.cells_node] at h
  have hroot := h.expression
  have hcontent : (tree.entity id).content = .expression first 0 :=
    congrArg Entity.content h.cons.1
  have hle := hroot.under.le_size
  constructor
  · rw [hcontent]
    simp [Content.children]
  · rw [hcontent]
    exact ⟨Nat.lt_of_lt_of_le (Nat.lt_succ_self first) (by omega), hroot.kind, rfl⟩

mutual

/-- The nodes of a valid entry fit. -/
theorem Entry.fits {id first : Nat} {parent : Option Nat} (name : Option String) : ∀ (v : Entry),
    v.valid ops → tree.Laid id first ((v.outline name).rose.cells parent id) →
    tree.NodesFit ops id (v.outline name).rose.size first
      (widths ((v.outline name).rose.cells parent id))
  | .sect title members, hv, h => by
    rw [Entry.valid, Bool.and_eq_true] at hv
    have hsect := Tree.Laid.sect_fits hv.1 hv.2 h
    rw [Entry.outline, EntityOutline.rose, Rose.cells_node] at h ⊢
    rw [widths_sect]
    exact .cons hsect (Binding.fits_members members hv.2 h.cons.2)
  | .array items, hv, h => by
    rw [Entry.valid] at hv
    have harray := Tree.Laid.array_fits h
    rw [Entry.outline, EntityOutline.rose, Rose.cells_node] at h ⊢
    rw [widths_array]
    exact .cons harray (Entry.fits_items items hv h.cons.2)
  | .formula f, hv, h => by
    rw [Entry.valid] at hv
    have hexpression := Tree.Laid.expression_fits h
    rw [Entry.outline, EntityOutline.rose, Rose.cells_node] at h ⊢
    have hroot := h.expression
    have hnode : tree.ElementFits ops first := by
      refine ⟨hroot.inside, hroot.ordered, hroot.parent_eq, ?_⟩
      rw [Tree.KindFits, hroot.kind]
      exact ⟨hroot.text, f.forms (hroot.outlines (Nat.le_refl _))⟩
    refine ⟨(Tree.NodesFit.cons hexpression (@Tree.nodesFit_zero ops tree _ 0)).entities, ?_⟩
    exact .cons hnode (Formula.fits f hv hroot.under)

/-- The nodes of the items of an array fit. -/
theorem Entry.fits_items {id first parent : Nat} : ∀ (vs : List Entry), Entry.allValid ops vs →
    tree.Laid id first (Rose.rowCells parent id (EntityOutline.roses (Entry.outlines vs))) →
    tree.NodesFit ops id (Rose.sizes (EntityOutline.roses (Entry.outlines vs))) first
      (widths (Rose.rowCells parent id (EntityOutline.roses (Entry.outlines vs))))
  | [], _, _ => Tree.nodesFit_zero _ _
  | v :: vs, hv, h => by
    rw [Entry.allValid, Bool.and_eq_true] at hv
    rw [Entry.outlines, EntityOutline.roses, Rose.rowCells_cons] at h ⊢
    have hparts := h.append
    rw [Rose.length_cells] at hparts
    rw [widths_append]
    exact .append (Entry.fits none v hv.1 hparts.1) (Entry.fits_items vs hv.2 hparts.2)

/-- The nodes of a valid member fit. -/
theorem Binding.fits {id first : Nat} {parent : Option Nat} : ∀ (m : Binding), m.valid ops →
    tree.Laid id first (m.outline.rose.cells parent id) →
    tree.NodesFit ops id m.outline.rose.size first (widths (m.outline.rose.cells parent id))
  | .mk name v, hv, h => by
    rw [Binding.valid, Bool.and_eq_true] at hv
    exact Entry.fits (some name) v hv.2 h

/-- The nodes of the members of a section fit. -/
theorem Binding.fits_members {id first parent : Nat} : ∀ (ms : List Binding),
    Binding.allValid ops ms →
    tree.Laid id first (Rose.rowCells parent id (EntityOutline.roses (Binding.outlines ms))) →
    tree.NodesFit ops id (Rose.sizes (EntityOutline.roses (Binding.outlines ms))) first
      (widths (Rose.rowCells parent id (EntityOutline.roses (Binding.outlines ms))))
  | [], _, _ => Tree.nodesFit_zero _ _
  | m :: ms, hv, h => by
    rw [Binding.allValid, Bool.and_eq_true] at hv
    rw [Binding.outlines, EntityOutline.roses, Rose.rowCells_cons] at h ⊢
    have hparts := h.append
    rw [Rose.length_cells] at hparts
    rw [widths_append]
    exact .append (Binding.fits m hv.1 hparts.1) (Binding.fits_members ms hv.2 hparts.2)

end

/-! ## Trees -/

/-- A tree with the tables of a valid document is well formed. -/
theorem Tree.wellFormed_of_tables {d : Document} (hd : d.valid ops)
    (h : tree.plainEntities = entitiesOf 0 (d.outline.rose.cells none 0))
    (h' : tree.plainElements = elementsOf 0 0 (d.outline.rose.cells none 0)) :
    tree.WellFormed ops := by
  have hlaid : tree.Laid 0 0 (d.outline.rose.cells none 0) :=
    ⟨[], [], [], [], rfl, rfl, by rw [h]; simp, by rw [h']; simp⟩
  have hentities : tree.entities.size = d.outline.rose.size := by
    rw [← length_plainEntities, h, length_entitiesOf, Rose.length_cells]
  have helements : tree.elements.size = widths (d.outline.rose.cells none 0) := by
    rw [← length_plainElements, h', length_elementsOf]
  have hfits := Entry.fits none (.sect d.title d.members) hd hlaid
  refine ⟨⟨?_, ?_⟩, fun id hid => ?_, fun id hid => ?_⟩
  · rw [hentities, Document.outline, EntityOutline.rose, Rose.size_node]
    exact Nat.succ_pos _
  · rw [Document.outline, EntityOutline.rose, Rose.cells_node] at hlaid
    have hcontent := congrArg Entity.content hlaid.cons.1
    show (tree.entity 0).unplaced.content.isSection
    rw [hcontent]
    rfl
  · exact hfits.entities id (Nat.zero_le _) (by rw [Nat.zero_add]; exact hentities ▸ hid)
  · exact hfits.elements id (Nat.zero_le _) (by rw [Nat.zero_add]; exact helements ▸ hid)

end Formulary

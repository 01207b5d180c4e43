import Formulary.Proofs.Layout.Outline

/-!
# Parts of laid out tables

Rows of the tables of a tree, from a given place on.

* `Tree.Placed`, `Tree.PlacedRow`, `Tree.PlacedNode`: rows of the table of elements.
* `Tree.Laid`: rows of the table of entities, with the elements that belong to them.
* `Tree.PlacedRow.outlines`, `Tree.Laid.outlines`: what is laid out shows its outlines.
-/

namespace Formulary

theorem Rose.lt_of_mem_places {α : Type} {ts : List (Rose α)} {id p : Nat}
    (h : p ∈ places id ts) : p < id + sizes ts := by
  induction ts generalizing id with
  | nil => cases h
  | cons t ts ih =>
    cases t with
    | node a us =>
      rw [places_cons, List.mem_cons] at h
      rw [sizes_cons, size_node]
      rcases h with rfl | h
      · omega
      · have := ih h
        rw [size_node] at this
        omega

theorem Rose.le_of_mem_places {α : Type} {ts : List (Rose α)} {id p : Nat}
    (h : p ∈ places id ts) : id ≤ p := by
  induction ts generalizing id with
  | nil => cases h
  | cons t ts ih =>
    rw [places_cons, List.mem_cons] at h
    rcases h with rfl | h
    · exact Nat.le_refl p
    · have := ih h
      omega

theorem Rose.pairwise_places {α : Type} (id : Nat) (ts : List (Rose α)) :
    (places id ts).Pairwise (· < ·) := by
  induction ts generalizing id with
  | nil => exact .nil
  | cons t ts ih =>
    rw [places_cons]
    refine .cons (fun p hp => ?_) (ih _)
    have hle := le_of_mem_places hp
    cases t with
    | node a us =>
      rw [size_node] at hle
      omega

namespace Tree

variable {tree : Tree} {owner id first : Nat}

/-- The table of elements has some rows from the place `id` on. -/
def Placed (tree : Tree) (owner : EntityId) (id : Nat) (cs : List (Cell ElementLabel)) : Prop :=
  ∃ before after, before.length = id ∧
    tree.plainElements = before ++ (cs.map (Cell.element owner) ++ after)

/-- The table of entities has some rows from the place `id` on, and the table of elements has those
that belong to them from the place `first` on. -/
def Laid (tree : Tree) (id first : Nat) (cs : List (Cell EntityLabel)) : Prop :=
  ∃ before after before' after', before.length = id ∧ before'.length = first ∧
    tree.plainEntities = before ++ (entitiesOf first cs ++ after) ∧
    tree.plainElements = before' ++ (elementsOf id first cs ++ after')

def PlacedRow (tree : Tree) (owner : EntityId) (parent id : Nat) (row : List ElementOutline) :
    Prop :=
  tree.Placed owner id (Rose.rowCells parent id (ElementOutline.roses row))

/-- An element with this outline is laid out at the place `id`, and what is under it follows. -/
structure PlacedNode (tree : Tree) (owner : EntityId) (id : Nat) (kind : ElementKind)
    (text : String) (row : List ElementOutline) : Prop where
  kind : (tree.element id).kind = kind
  text : (tree.element id).text = text
  children : (tree.element id).children = (Rose.places (id + 1) (ElementOutline.roses row)).toArray
  under : tree.PlacedRow owner id (id + 1) row

/-! ## Elements -/

theorem Placed.append {cs ds : List (Cell ElementLabel)} (h : tree.Placed owner id (cs ++ ds)) :
    tree.Placed owner id cs ∧ tree.Placed owner (id + cs.length) ds := by
  obtain ⟨before, after, hid, h⟩ := h
  rw [List.map_append, List.append_assoc] at h
  refine ⟨⟨before, _, hid, h⟩, ⟨before ++ cs.map (Cell.element owner), after, by simp [hid], ?_⟩⟩
  rw [h, List.append_assoc]

theorem Placed.cons {c : Cell ElementLabel} {cs : List (Cell ElementLabel)}
    (h : tree.Placed owner id (c :: cs)) :
    (tree.element id).unplaced = c.element owner ∧ tree.Placed owner (id + 1) cs := by
  obtain ⟨before, after, hid, h⟩ := h
  rw [List.map_cons, List.cons_append] at h
  have he := element_of_eq h
  rw [hid] at he
  rw [List.append_cons] at h
  exact ⟨he, _, after, by simp [hid], h⟩

theorem Placed.le_size {cs : List (Cell ElementLabel)} (h : tree.Placed owner id cs) :
    id + cs.length ≤ tree.elements.size := by
  obtain ⟨before, after, hid, h⟩ := h
  have := congrArg List.length h
  simp only [length_plainElements, List.length_append, List.length_map] at this
  omega

theorem Placed.node {kind : ElementKind} {text : String} {row : List ElementOutline}
    {parent : Option Nat} (h : tree.Placed owner id
      ((Rose.node ⟨kind, text, 0⟩ (ElementOutline.roses row)).cells parent id)) :
    tree.PlacedNode owner id kind text row := by
  rw [Rose.cells_node] at h
  obtain ⟨he, hunder⟩ := h.cons
  exact ⟨congrArg Element.kind he, congrArg Element.text he, congrArg Element.children he, hunder⟩

variable {parent : Nat} {row row' : List ElementOutline}

theorem PlacedRow.append (h : tree.PlacedRow owner parent id (row ++ row')) :
    tree.PlacedRow owner parent id row ∧
      tree.PlacedRow owner parent (id + Rose.sizes (ElementOutline.roses row)) row' := by
  rw [PlacedRow, ElementOutline.roses_append, Rose.rowCells_append] at h
  have hparts := Placed.append h
  rw [Rose.length_rowCells] at hparts
  exact hparts

theorem PlacedRow.cons {kind : ElementKind} {text : String} {children : List ElementOutline}
    (h : tree.PlacedRow owner parent id (.mk kind text children :: row)) :
    tree.PlacedNode owner id kind text children ∧
      tree.PlacedRow owner parent (id + (Rose.sizes (ElementOutline.roses children) + 1)) row := by
  rw [PlacedRow, ElementOutline.roses, Rose.rowCells_cons] at h
  have hparts := Placed.append h
  rw [Rose.length_cells, ElementOutline.rose, Rose.size_node] at hparts
  exact ⟨hparts.1.node, hparts.2⟩

theorem PlacedRow.le_size (h : tree.PlacedRow owner parent id row) :
    id + Rose.sizes (ElementOutline.roses row) ≤ tree.elements.size := by
  have hle := Placed.le_size h
  rwa [Rose.length_rowCells] at hle

theorem PlacedRow.parent_eq (h : tree.PlacedRow owner parent id row) :
    ∀ c ∈ Rose.places id (ElementOutline.roses row), (tree.element c).parent = some parent := by
  induction row generalizing id with
  | nil => simp [ElementOutline.roses]
  | cons o row ih =>
    cases o with
    | mk kind text children =>
      intro c hc
      rw [ElementOutline.roses, Rose.places_cons, List.mem_cons] at hc
      rcases hc with rfl | hc
      · rw [PlacedRow, ElementOutline.roses, Rose.rowCells_cons] at h
        exact congrArg Element.parent h.append.1.cons.1
      · exact ih h.cons.2 c hc

/-- Elements that are laid out side by side show their outlines, down to any level that is deep
enough. -/
theorem PlacedRow.outlines {n : Nat} (h : tree.PlacedRow owner parent id row)
    (hn : tree.elements.size ≤ n) :
    (Rose.places id (ElementOutline.roses row)).map (tree.elementOutline n) = row := by
  have hle := h.le_size
  obtain ⟨before, after, hid, h⟩ := h
  exact row_of_cells row hid h (by omega)

theorem PlacedNode.inside {kind : ElementKind} {text : String}
    (h : tree.PlacedNode owner id kind text row) :
    ∀ c ∈ (tree.element id).children, c < tree.elements.size := by
  intro c hc
  rw [h.children, List.mem_toArray] at hc
  exact Nat.lt_of_lt_of_le (Rose.lt_of_mem_places hc) h.under.le_size

theorem PlacedNode.parent_eq {kind : ElementKind} {text : String}
    (h : tree.PlacedNode owner id kind text row) :
    ∀ c ∈ (tree.element id).children, (tree.element c).parent = some id := by
  intro c hc
  rw [h.children, List.mem_toArray] at hc
  exact h.under.parent_eq c hc

theorem PlacedNode.ordered {kind : ElementKind} {text : String}
    (h : tree.PlacedNode owner id kind text row) :
    (tree.element id).children.toList.Pairwise (· < ·) := by
  rw [h.children]
  exact Rose.pairwise_places (id + 1) (ElementOutline.roses row)

theorem PlacedNode.outlines {kind : ElementKind} {text : String} {n : Nat}
    (h : tree.PlacedNode owner id kind text row) (hn : tree.elements.size ≤ n) :
    (tree.element id).children.toList.map (tree.elementOutline n) = row := by
  rw [h.children]
  exact h.under.outlines hn

theorem PlacedNode.outline_mem {kind : ElementKind} {text : String} {n : Nat} {c : ElementId}
    (h : tree.PlacedNode owner id kind text row) (hn : tree.elements.size ≤ n)
    (hc : c ∈ (tree.element id).children) : tree.elementOutline n c ∈ row := by
  rw [← h.outlines hn]
  exact List.mem_map_of_mem (Array.mem_toList_iff.mpr hc)

theorem kind_of_elementOutline {n : Nat} {kind : ElementKind} {text : String}
    {children : List ElementOutline} (h : tree.elementOutline n id = .mk kind text children) :
    (tree.element id).kind = kind := by
  cases n <;> cases h <;> rfl

theorem text_of_elementOutline {n : Nat} {kind : ElementKind} {text : String}
    {children : List ElementOutline} (h : tree.elementOutline n id = .mk kind text children) :
    (tree.element id).text = text := by
  cases n <;> cases h <;> rfl

/-! ## Entities -/

theorem Laid.append {cs ds : List (Cell EntityLabel)} (h : tree.Laid id first (cs ++ ds)) :
    tree.Laid id first cs ∧ tree.Laid (id + cs.length) (first + widths cs) ds := by
  obtain ⟨before, after, before', after', hid, hfirst, h, h'⟩ := h
  rw [entitiesOf_append, List.append_assoc] at h
  rw [elementsOf_append, List.append_assoc] at h'
  refine ⟨⟨before, _, before', _, hid, hfirst, h, h'⟩, ⟨before ++ entitiesOf first cs, after,
    before' ++ elementsOf id first cs, after', by simp [hid], by simp [hfirst], ?_, ?_⟩⟩
  · rw [h, List.append_assoc]
  · rw [h', List.append_assoc]

theorem Laid.cons {c : Cell EntityLabel} {cs : List (Cell EntityLabel)}
    (h : tree.Laid id first (c :: cs)) :
    (tree.entity id).unplaced = c.entity first ∧
      tree.Laid (id + 1) (first + c.label.width) cs := by
  obtain ⟨before, after, before', after', hid, hfirst, h, h'⟩ := h
  rw [entitiesOf, List.cons_append] at h
  rw [elementsOf, List.append_assoc] at h'
  have he := entity_of_eq h
  rw [hid] at he
  rw [List.append_cons] at h
  refine ⟨he, ⟨before ++ [c.entity first], after, before' ++ c.label.elements id first, after',
    by simp [hid], by simp [hfirst], h, ?_⟩⟩
  rw [h', List.append_assoc]

theorem Laid.expression {name : Option String} {row : List ElementOutline}
    {children : List Nat} {parent : Option Nat} {cs : List (Cell EntityLabel)}
    (h : tree.Laid id first (⟨.expression name row, children, parent⟩ :: cs)) :
    tree.PlacedNode id first .node "" row := by
  obtain ⟨before, after, before', after', hid, hfirst, h, h'⟩ := h
  rw [elementsOf, List.append_assoc] at h'
  have hplaced : tree.Placed id first ((ElementOutline.rootRose row).cells none first) :=
    ⟨before', _, hfirst, h'⟩
  exact hplaced.node

theorem Laid.le_size {cs : List (Cell EntityLabel)} (h : tree.Laid id first cs) :
    id + cs.length ≤ tree.entities.size := by
  obtain ⟨before, after, -, -, hid, -, h, -⟩ := h
  have := congrArg List.length h
  simp only [length_plainEntities, List.length_append, length_entitiesOf] at this
  omega

theorem Laid.outlines {os : List EntityOutline} {parent : Nat}
    (h : tree.Laid id first (Rose.rowCells parent id (EntityOutline.roses os))) :
    (Rose.places id (EntityOutline.roses os)).map (tree.entityOutline tree.entities.size) = os := by
  have hle := h.le_size
  rw [Rose.length_rowCells] at hle
  obtain ⟨before, after, before', after', hid, hfirst, h, h'⟩ := h
  exact allOutlines_of_cells os hid hfirst h h' (by omega)

end Tree

/-! ## Names -/

def EntityOutline.name : EntityOutline → Option String
  | .sect name _ _ | .array name _ | .expression name _ => name

@[simp] theorem Tree.name_entityOutline (tree : Tree) (n : Nat) (id : EntityId) :
    (tree.entityOutline n id).name = (tree.entity id).name := by
  rw [entityOutline.eq_def]
  cases n <;> simp only <;> split <;> rfl

end Formulary

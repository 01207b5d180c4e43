import Formulary.Proofs.Layout.Unambiguous
import Formulary.Proofs.Reader.Simulation
import Formulary.Proofs.Tree.Arena
import Formulary.Proofs.Tree.Shown
import Formulary.Proofs.Tree.Walk

/-!
# The lines of a tree

Performing the tasks of a tree shows the lines of its outline, one after the other, and goes once
through all its nodes.  The rendering never reaches its bound on the number of lines.

* `Tree.Tour`: tasks that are performed, with their lines and the nodes that they show.
* `Tree.PlacedRow.tour`, `Tree.Laid.tour`: the tours of nodes that are laid out.
* `Tree.Holds.tour`: the tour of a whole tree.
* `Tree.Holds.render`: a tree is shown as the lines of its outline.
-/

namespace Formulary

namespace Tree

variable {tree : Tree} {tasks tasks' performed performed' : List Task} {lines lines' : List String}
  {entities entities' : List EntityId} {elements elements' : List ElementId}

/-! ## Tours -/

/-- Tasks that are performed for some pending tasks: they show some lines, each by two spaces deeper
at every level, some entities and some elements. -/
structure Tour (tree : Tree) (tasks performed : List Task) (lines : List String)
    (entities : List EntityId) (elements : List ElementId) : Prop where
  preorder : tree.Preorder tasks performed
  lines : performed.map (Task.line tree) = lines
  indented : ∀ task ∈ performed, leading (task.line tree) = 2 * task.depth
  entities : performed.filterMap Task.entity? = entities
  elements : performed.filterMap Task.element? = elements

namespace Tour

theorem nil (tree : Tree) : tree.Tour [] [] [] [] [] where
  preorder := .nil
  lines := rfl
  indented _ h := nomatch h
  entities := rfl
  elements := rfl

theorem append (h : tree.Tour tasks performed lines entities elements)
    (h' : tree.Tour tasks' performed' lines' entities' elements') :
    tree.Tour (tasks ++ tasks') (performed ++ performed') (lines ++ lines')
      (entities ++ entities') (elements ++ elements') where
  preorder := h.preorder.append h'.preorder
  lines := by rw [List.map_append, h.lines, h'.lines]
  indented := List.forall_mem_append.mpr ⟨h.indented, h'.indented⟩
  entities := by rw [List.filterMap_append, h.entities, h'.entities]
  elements := by rw [List.filterMap_append, h.elements, h'.elements]

/-- A task shows its line and what it stands for, and then what is inside it. -/
theorem task {task : Task} {line : String} (hline : task.line tree = line)
    (hleading : leading line = 2 * task.depth) (hinside : task.inside tree = tasks)
    (h : tree.Tour tasks performed lines entities elements) :
    tree.Tour [task] (task :: performed) (line :: lines) (task.entity?.toList ++ entities)
      (task.element?.toList ++ elements) where
  preorder := by
    have hcons := Preorder.cons (hinside ▸ h.preorder) .nil
    rwa [List.append_nil] at hcons
  lines := by rw [List.map_cons, hline, h.lines]
  indented := List.forall_mem_cons.mpr ⟨hline ▸ hleading, h.indented⟩
  entities := by
    rw [List.filterMap_cons, ← h.entities]
    cases task <;> rfl
  elements := by
    rw [List.filterMap_cons, ← h.elements]
    cases task <;> rfl

theorem close {mark line : String} (hline : mark ++ "\n" = line)
    (hword : line.toList ≠ [] ∧ ' ' ∉ line.toList) (depth : Nat) :
    tree.Tour [.close mark depth] [.close mark depth] [indent depth ++ line] [] [] :=
  task (by rw [Task.line, String.append_assoc, hline])
    (EntityOutline.leading_closing line hword depth) rfl (.nil tree)

/-- What a section or an array holds is shown between its line and the line that closes it. -/
theorem enclose {o : EntityOutline} {id : EntityId} {depth : Nat} {mark closing : String}
    (ho : o.Named) (hline : (Task.entity id depth).line tree = o.opening depth)
    (hinside : (Task.entity id depth).inside tree = tasks ++ [.close mark depth])
    (hclosing : mark ++ "\n" = closing) (hword : closing.toList ≠ [] ∧ ' ' ∉ closing.toList)
    (h : tree.Tour tasks performed lines entities elements) :
    tree.Tour [.entity id depth] (.entity id depth :: (performed ++ [.close mark depth]))
      (o.opening depth :: (lines ++ [indent depth ++ closing])) (id :: entities) elements := by
  have htour := h.append (.close hclosing hword depth)
  rw [List.append_nil, List.append_nil] at htour
  exact .task hline (EntityOutline.leading_opening ho depth) hinside htour

/-- The loop comes to its end within the bound. -/
theorem render (h : tree.Tour [.entity root 0] performed lines entities elements)
    (hentities : entities.length ≤ tree.entities.size)
    (helements : elements.length ≤ tree.elements.size) : tree.render = String.join lines := by
  have hle : performed.length ≤ tree.lineBound := by
    have hcount : entities.countP (fun id => (tree.entity id).content.isContainer) ≤
        entities.length := List.countP_le_length
    rw [h.preorder.length_performed, h.entities, h.elements, lineBound]
    omega
  have hshown := (performs_iff_preorder.mpr h.preorder).renderTasks hle ""
  rw [h.lines] at hshown
  exact hshown

end Tour

variable {owner parent id first : Nat}

/-! ## Elements -/

mutual

/-- The tour of an element that is laid out, and of all that is under it. -/
theorem PlacedNode.tour (depth : Nat) : ∀ (o : ElementOutline) {kind : ElementKind}
    {text : String} {children : List ElementOutline} {id : Nat}, o = .mk kind text children →
    tree.PlacedNode owner id kind text children →
    ∃ performed, tree.Tour [.element id depth] performed (o.lines depth) []
      (List.range' id o.rose.size)
  | .mk kind text children, _, _, _, id, rfl, h => by
    have hline : (Task.element id depth).line tree = ElementOutline.line depth kind text := by
      rw [Task.line, h.kind, h.text]
      rfl
    have hinside : (Task.element id depth).inside tree =
        (Rose.places (id + 1) (ElementOutline.roses children)).map (.element · (depth + 1)) := by
      rw [Task.inside, h.children, List.toList_toArray]
    obtain ⟨performed, hunder⟩ := PlacedRow.tour (depth + 1) children h.under
    rw [ElementOutline.rose, Rose.size_node, List.range'_succ]
    exact ⟨_, .task hline (ElementOutline.leading_line depth kind text) hinside hunder⟩

/-- The tour of elements that are laid out side by side. -/
theorem PlacedRow.tour (depth : Nat) : ∀ (os : List ElementOutline) {parent id : Nat},
    tree.PlacedRow owner parent id os →
    ∃ performed, tree.Tour ((Rose.places id (ElementOutline.roses os)).map (.element · depth))
      performed (ElementOutline.rowLines depth os) []
      (List.range' id (Rose.sizes (ElementOutline.roses os)))
  | [], _, _, _ => ⟨[], .nil tree⟩
  | .mk kind text children :: os, parent, id, h => by
    obtain ⟨_, hnode⟩ := PlacedNode.tour depth (.mk kind text children) rfl h.cons.1
    obtain ⟨_, hrow⟩ := PlacedRow.tour depth os h.cons.2
    rw [ElementOutline.rowLines, ElementOutline.roses, Rose.places_cons, List.map_cons,
      Rose.sizes_cons, ← List.range'_append_1]
    exact ⟨_, hnode.append hrow⟩

end

/-! ## Entities -/

/-- The line of an entity shows its name and what opens it. -/
theorem line_entity {o : EntityOutline} {depth : Nat} (hname : (tree.entity id).name = o.name)
    (hheading : (tree.entity id).content.heading ++ "\n" = o.heading) :
    (Task.entity id depth).line tree = o.opening depth := by
  rw [Task.line, String.append_assoc, hheading, binding, hname]
  rfl

/-- The elements at some places that are not the root node of an expression. -/
def innerElements (tree : Tree) (first width : Nat) : List ElementId :=
  (List.range' first width).filter fun e => (tree.element e).parent.isSome

theorem innerElements_add (first width width' : Nat) : tree.innerElements first (width + width') =
    tree.innerElements first width ++ tree.innerElements (first + width) width' := by
  rw [innerElements, ← List.range'_append_1, List.filter_append]
  rfl

/-- The elements of an expression are those after its root node. -/
theorem Laid.innerElements {name : Option String} {row : List ElementOutline}
    {children : List Nat} {parent : Option Nat} {cs : List (Cell EntityLabel)}
    (h : tree.Laid id first (⟨.expression name row, children, parent⟩ :: cs)) :
    tree.innerElements first (Rose.sizes (ElementOutline.roses row) + 1) =
      List.range' (first + 1) (Rose.sizes (ElementOutline.roses row)) := by
  have hroot : (tree.element first).parent = none := congrArg Element.parent h.placed.cons.1
  have hunder := h.expression.under
  have hlinked := Links.linked_rowCells _ (Placed.shows hunder)
  rw [Tree.innerElements, List.range'_succ, List.filter_cons_of_neg (by simp [hroot]),
    List.filter_eq_self]
  intro e he
  rw [List.mem_range'_1] at he
  rcases hlinked.listed e he.1 he.2 with htop | ⟨p, hp, -⟩
  · rw [hunder.parent_eq e htop]
    rfl
  · exact Option.isSome_of_eq_some hp

mutual

/-- The tour of an entity that is laid out with the elements that belong to it. -/
theorem Laid.tour (depth : Nat) : ∀ (o : EntityOutline) {parent : Option Nat} {id first : Nat},
    o.Named → tree.Laid id first (o.rose.cells parent id) →
    ∃ performed, tree.Tour [.entity id depth] performed (o.lines depth)
      (List.range' id o.rose.size) (tree.innerElements first (widths (o.rose.cells parent id)))
  | .sect name title members, parent, id, first, ho, h => by
    rw [EntityOutline.rose, Rose.cells_node] at h
    obtain ⟨he, hunder⟩ := h.cons
    have hcontent : (tree.entity id).content =
        .sect title (Rose.places (id + 1) (EntityOutline.roses members)).toArray :=
      congrArg Entity.content he
    have hline : (Task.entity id depth).line tree = _ :=
      line_entity (o := .sect name title members) (congrArg Entity.name he) (by
        rw [hcontent]
        exact String.append_assoc)
    have hinside : (Task.entity id depth).inside tree =
        (Rose.places (id + 1) (EntityOutline.roses members)).map (.entity · (depth + 1)) ++
          [.close "\x7d" depth] := by
      simp only [Task.inside, hcontent]
    obtain ⟨_, hmembers⟩ := Laid.tour_all (depth + 1) members ho.2.2 hunder
    rw [EntityOutline.lines_eq, EntityOutline.inside, EntityOutline.rose, Rose.cells_node,
      widths_sect, Rose.size_node, List.range'_succ]
    exact ⟨_, .enclose ho hline hinside rfl (by decide) hmembers⟩
  | .array name items, parent, id, first, ho, h => by
    rw [EntityOutline.rose, Rose.cells_node] at h
    obtain ⟨he, hunder⟩ := h.cons
    have hcontent : (tree.entity id).content =
        .array (Rose.places (id + 1) (EntityOutline.roses items)).toArray :=
      congrArg Entity.content he
    have hline : (Task.entity id depth).line tree = _ :=
      line_entity (o := .array name items) (congrArg Entity.name he) (by
        rw [hcontent]
        rfl)
    have hinside : (Task.entity id depth).inside tree =
        (Rose.places (id + 1) (EntityOutline.roses items)).map (.entity · (depth + 1)) ++
          [.close "]" depth] := by
      simp only [Task.inside, hcontent]
    obtain ⟨_, hitems⟩ := Laid.tour_all (depth + 1) items ho.2 hunder
    rw [EntityOutline.lines_eq, EntityOutline.inside, EntityOutline.rose, Rose.cells_node,
      widths_array, Rose.size_node, List.range'_succ]
    exact ⟨_, .enclose ho hline hinside rfl (by decide) hitems⟩
  | .expression name row, parent, id, first, ho, h => by
    rw [EntityOutline.rose, Rose.cells_node] at h
    have hroot := h.expression
    have he := h.cons.1
    have hcontent : (tree.entity id).content = .expression first 0 := congrArg Entity.content he
    have hline : (Task.entity id depth).line tree = _ :=
      line_entity (o := .expression name row) (congrArg Entity.name he) (by
        rw [hcontent]
        rfl)
    have hinside : (Task.entity id depth).inside tree =
        (Rose.places (first + 1) (ElementOutline.roses row)).map (.element · (depth + 1)) := by
      simp only [Task.inside, hcontent, hroot.children, List.toList_toArray]
    have hwidth : widths ((EntityOutline.expression name row).rose.cells parent id) =
        Rose.sizes (ElementOutline.roses row) + 1 := rfl
    obtain ⟨_, hrow⟩ := hroot.under.tour (depth + 1) row
    rw [EntityOutline.lines_eq, hwidth, h.innerElements]
    exact ⟨_, .task hline (EntityOutline.leading_opening ho depth) hinside hrow⟩

/-- The tour of entities that are laid out side by side. -/
theorem Laid.tour_all (depth : Nat) : ∀ (os : List EntityOutline) {parent id first : Nat},
    EntityOutline.AllNamed os →
    tree.Laid id first (Rose.rowCells parent id (EntityOutline.roses os)) →
    ∃ performed, tree.Tour ((Rose.places id (EntityOutline.roses os)).map (.entity · depth))
      performed (EntityOutline.allLines depth os)
      (List.range' id (Rose.sizes (EntityOutline.roses os)))
      (tree.innerElements first (widths (Rose.rowCells parent id (EntityOutline.roses os))))
  | [], _, _, _, _, _ => ⟨[], .nil tree⟩
  | o :: os, parent, id, first, ho, h => by
    rw [EntityOutline.roses, Rose.rowCells_cons] at h
    have hparts := h.append
    rw [Rose.length_cells] at hparts
    obtain ⟨_, hentity⟩ := Laid.tour depth o ho.1 hparts.1
    obtain ⟨_, hrest⟩ := Laid.tour_all depth os ho.2 hparts.2
    rw [EntityOutline.allLines, EntityOutline.roses, Rose.places_cons, List.map_cons,
      Rose.sizes_cons, ← List.range'_append_1, Rose.rowCells_cons, widths_append,
      innerElements_add]
    exact ⟨_, hentity.append hrest⟩

end

/-! ## Whole trees -/

/-- The tour of a tree goes through all entities, and through all elements but the root nodes. -/
theorem Holds.tour {o : EntityOutline} (h : tree.Holds o) (ho : o.Named) :
    ∃ performed, tree.Tour [.entity root 0] performed (o.lines 0) (List.range tree.entities.size)
      (tree.innerElements 0 tree.elements.size) := by
  have hlaid : tree.Laid 0 0 (o.rose.cells none 0) :=
    ⟨[], [], [], [], rfl, rfl, by rw [h.1]; simp, by rw [h.2]; simp⟩
  have hentities : tree.entities.size = o.rose.size := by
    rw [← length_plainEntities, h.1, length_entitiesOf, Rose.length_cells]
  have helements : tree.elements.size = widths (o.rose.cells none 0) := by
    rw [← length_plainElements, h.2, length_elementsOf]
  rw [List.range_eq_range', hentities, helements]
  exact hlaid.tour 0 o ho

/-- A tree is shown as the lines of its outline. -/
theorem Holds.render {o : EntityOutline} (h : tree.Holds o) (ho : o.Named) :
    tree.render = String.join (o.lines 0) := by
  obtain ⟨performed, htour⟩ := h.tour ho
  refine htour.render (Nat.le_of_eq List.length_range) ?_
  exact Nat.le_trans (List.length_filter_le ..) (Nat.le_of_eq List.length_range')

end Tree

end Formulary

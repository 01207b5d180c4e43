import Formulary.Proofs.Layout.Links

/-!
# The two tables of a tree as trees

The entities make up one tree below the root section, and the elements of each expression make up
one below its root node.

* `Tree.entityLinks`, `Tree.elementLinks`: the links in both tables.
* `Tree.Linked`: both tables hold these trees and nothing else, in pre-order.
* `Tree.linked_of_tables`: the tables of an outline that begins with a section are linked so.
-/

namespace Formulary

namespace Tree

variable {tree : Tree}

def entityLinks (tree : Tree) : Links where
  parent id := (tree.entity id).parent
  children id := (tree.entity id).content.children.toList

def elementLinks (tree : Tree) : Links where
  parent id := (tree.element id).parent
  children id := (tree.element id).children.toList

def rootNode? (tree : Tree) (id : EntityId) : Option ElementId :=
  match (tree.entity id).content with
  | .expression root _ => some root
  | _ => none

def rootNodes (tree : Tree) : List ElementId :=
  (List.range tree.entities.size).filterMap tree.rootNode?

/-- An element belongs to the expression that it names: it is below the root node of that
expression, and so is all that it lists. -/
structure Owned (tree : Tree) (id : ElementId) : Prop where
  expression : (tree.element id).expression < tree.entities.size
  below : ∃ root ∈ tree.rootNode? (tree.element id).expression, tree.elementLinks.Below root id
  children : ∀ c ∈ (tree.element id).children,
    (tree.element c).expression = (tree.element id).expression

/-- Both tables of a tree are linked into trees: the entities below the root section, the elements
of each expression below its root node. -/
structure Linked (tree : Tree) : Prop where
  root : (tree.entity Tree.root).content.isSection
  entities : tree.entityLinks.Forest tree.entities.size [Tree.root]
  elements : tree.elementLinks.Forest tree.elements.size tree.rootNodes
  /-- The root node of an expression is a node that names this expression. -/
  rootNodes : ∀ id, ∀ root ∈ tree.rootNode? id,
    (tree.element root).kind = .node ∧ (tree.element root).expression = id
  owned : ∀ id < tree.elements.size, tree.Owned id

/-! ## Elements -/

variable {owner id first : Nat}

theorem Placed.shows : ∀ {id : Nat} {cs : List (Cell ElementLabel)}, tree.Placed owner id cs →
    tree.elementLinks.Shows id cs
  | _, [], _ => trivial
  | id, c :: cs, h => by
    obtain ⟨he, h⟩ := h.cons
    have hchildren : (tree.element id).children = c.children.toArray :=
      congrArg Element.children he
    refine ⟨congrArg Element.parent he, ?_, h.shows⟩
    show (tree.element id).children.toList = c.children
    rw [hchildren]

theorem Placed.expression_eq : ∀ {id : Nat} {cs : List (Cell ElementLabel)},
    tree.Placed owner id cs → ∀ e, id ≤ e → e < id + cs.length →
    (tree.element e).expression = owner
  | id, [], _, e, hle, hlt => absurd hlt (by simpa using hle)
  | id, c :: cs, h, e, hle, hlt => by
    obtain ⟨he, h⟩ := h.cons
    rcases Nat.eq_or_lt_of_le hle with rfl | hle
    · exact congrArg Element.expression he
    · exact h.expression_eq e hle (by rw [List.length_cons] at hlt; omega)

variable {cs : List (Cell EntityLabel)}

/-- The elements of an expression are laid out from its root node on. -/
theorem Laid.placed {name : Option String} {row : List ElementOutline} {children : List Nat}
    {parent : Option Nat}
    (h : tree.Laid id first (⟨.expression name row, children, parent⟩ :: cs)) :
    tree.Placed id first ((ElementOutline.rootRose row).cells none first) := by
  obtain ⟨-, -, before', after', -, hfirst, -, h'⟩ := h
  rw [elementsOf, List.append_assoc] at h'
  exact ⟨before', _, hfirst, h'⟩

/-- What holds of the elements of some entities: they are linked below the root nodes of these
entities, and belong to them. -/
structure ElementsLinked (tree : Tree) (id n first last : Nat) : Prop where
  linked : tree.elementLinks.Linked first last ((List.range' id n).filterMap tree.rootNode?)
  rootNodes : ∀ k, id ≤ k → k < id + n → ∀ root ∈ tree.rootNode? k,
    (tree.element root).parent = none ∧ (tree.element root).kind = .node ∧
      (tree.element root).expression = k
  owned : ∀ e, first ≤ e → e < last → tree.Owned e

theorem ElementsLinked.skip {n last : Nat} (hid : tree.rootNode? id = none)
    (h : tree.ElementsLinked (id + 1) n first last) :
    tree.ElementsLinked id (n + 1) first last where
  linked := by
    rw [List.range'_succ, List.filterMap_cons_none hid]
    exact h.linked
  rootNodes k hk hlt root hroot := by
    rcases Nat.eq_or_lt_of_le hk with rfl | hk
    · rw [hid] at hroot
      cases hroot
    · exact h.rootNodes k hk (by omega) root hroot
  owned := h.owned

/-- The elements of an expression that is laid out. -/
theorem Laid.owned {name : Option String} {row : List ElementOutline} {children : List Nat}
    {parent : Option Nat}
    (h : tree.Laid id first (⟨.expression name row, children, parent⟩ :: cs)) :
    ∀ e, first ≤ e → e < first + (ElementOutline.rootRose row).size → tree.Owned e := by
  have hlinked := Links.linked_cells _ h.placed.shows
  have hexpression := h.placed.expression_eq
  rw [Rose.length_cells] at hexpression
  have hcontent : (tree.entity id).content = .expression first 0 := congrArg Entity.content h.cons.1
  have hsize := h.le_size
  rw [List.length_cons] at hsize
  have hid : id < tree.entities.size := by omega
  intro e hle hlt
  have he := hexpression e hle hlt
  refine ⟨he ▸ hid, ?_, fun c hc => ?_⟩
  · obtain ⟨t, ht, hbelow⟩ := hlinked.below e hle hlt
    rw [List.mem_singleton] at ht
    subst ht
    exact ⟨t, by simp [rootNode?, he, hcontent], hbelow⟩
  · obtain ⟨h₁, h₂, -⟩ := hlinked.stored e hle hlt c (Array.mem_toList_iff.mpr hc)
    rw [he, hexpression c (by omega) h₂]

/-- The elements of entities that are laid out are linked. -/
theorem Laid.elementsLinked : ∀ {id first : Nat} {cs : List (Cell EntityLabel)},
    tree.Laid id first cs → tree.ElementsLinked id cs.length first (first + widths cs)
  | id, first, [], _ => ⟨Links.linked_nil _ _, fun _ hk hlt => absurd hlt (by simpa using hk),
      fun _ hle hlt => absurd hlt (by simpa [widths] using hle)⟩
  | id, first, ⟨.sect name title, children, parent⟩ :: cs, h => by
    obtain ⟨he, hrest⟩ := h.cons
    have hcontent : (tree.entity id).content = .sect title children.toArray :=
      congrArg Entity.content he
    rw [List.length_cons, widths, ← Nat.add_assoc]
    exact .skip (by rw [rootNode?, hcontent]) hrest.elementsLinked
  | id, first, ⟨.array name, children, parent⟩ :: cs, h => by
    obtain ⟨he, hrest⟩ := h.cons
    have hcontent : (tree.entity id).content = .array children.toArray :=
      congrArg Entity.content he
    rw [List.length_cons, widths, ← Nat.add_assoc]
    exact .skip (by rw [rootNode?, hcontent]) hrest.elementsLinked
  | id, first, ⟨.expression name row, children, parent⟩ :: cs, h => by
    obtain ⟨he, hrest⟩ := h.cons
    have hroot : tree.rootNode? id = some first := by
      rw [rootNode?, show (tree.entity id).content = .expression first 0 from
        congrArg Entity.content he]
    have hnode : (tree.element first).unplaced = _ := h.placed.cons.1
    have hcs := hrest.elementsLinked
    rw [EntityLabel.width] at hcs
    rw [List.length_cons, widths, EntityLabel.width, ← Nat.add_assoc]
    constructor
    · rw [List.range'_succ, List.filterMap_cons_some hroot]
      exact (Links.linked_cells _ h.placed.shows).append hcs.linked (Nat.le_add_right ..)
        (Nat.le_add_right ..)
    · intro k hk hlt root hmem
      rcases Nat.eq_or_lt_of_le hk with rfl | hk
      · rw [hroot, Option.mem_some_iff] at hmem
        subst hmem
        exact ⟨congrArg Element.parent hnode, congrArg Element.kind hnode,
          congrArg Element.expression hnode⟩
      · exact hcs.rootNodes k hk (by omega) root hmem
    · intro e hle hlt
      rcases Nat.lt_or_ge e (first + (ElementOutline.rootRose row).size) with hin | hout
      · exact h.owned e hle hin
      · exact hcs.owned e hout hlt

/-! ## Entities -/

def Flat (cs : List (Cell EntityLabel)) : Prop :=
  ∀ c ∈ cs, ∀ name row, c.label = .expression name row → c.children = []

mutual

theorem flat_cells {parent : Option Nat} {id : Nat} : ∀ o : EntityOutline,
    Flat (o.rose.cells parent id)
  | .sect name title members => by
    rw [EntityOutline.rose, Rose.cells_node]
    exact List.forall_mem_cons.mpr ⟨fun _ _ h => (nomatch h), flat_rowCells members⟩
  | .array name items => by
    rw [EntityOutline.rose, Rose.cells_node]
    exact List.forall_mem_cons.mpr ⟨fun _ _ h => (nomatch h), flat_rowCells items⟩
  | .expression name row => by
    rw [EntityOutline.rose, Rose.cells_node]
    exact List.forall_mem_cons.mpr ⟨fun _ _ _ => rfl, fun _ h => nomatch h⟩

theorem flat_rowCells {parent id : Nat} : ∀ os : List EntityOutline,
    Flat (Rose.rowCells parent id (EntityOutline.roses os))
  | [] => fun _ h => nomatch h
  | o :: os => by
    rw [EntityOutline.roses, Rose.rowCells_cons]
    exact List.forall_mem_append.mpr ⟨flat_cells o, flat_rowCells os⟩

end

theorem Laid.shows : ∀ {id first : Nat} {cs : List (Cell EntityLabel)}, tree.Laid id first cs →
    Flat cs → tree.entityLinks.Shows id cs
  | _, _, [], _, _ => trivial
  | id, first, ⟨label, children, parent⟩ :: cs, h, hflat => by
    obtain ⟨he, h⟩ := h.cons
    obtain ⟨hc, hflat⟩ := List.forall_mem_cons.mp hflat
    have hlinks : (tree.entity id).unplaced.parent = parent ∧
        (tree.entity id).unplaced.content.children.toList = children := by
      rw [he]
      cases label with
      | sect name title => exact ⟨rfl, rfl⟩
      | array name => exact ⟨rfl, rfl⟩
      | expression name row => exact ⟨rfl, (hc name row rfl).symm⟩
    exact ⟨hlinks.1, hlinks.2, h.shows hflat⟩

/-! ## Both tables -/

/-- The tables of an outline that begins with a section are linked. -/
theorem linked_of_tables {name title : Option String} {members : List EntityOutline}
    (h : tree.plainEntities =
      entitiesOf 0 ((EntityOutline.sect name title members).rose.cells none 0))
    (h' : tree.plainElements =
      elementsOf 0 0 ((EntityOutline.sect name title members).rose.cells none 0)) :
    tree.Linked := by
  have hlaid : tree.Laid 0 0 ((EntityOutline.sect name title members).rose.cells none 0) :=
    ⟨[], [], [], [], rfl, rfl, by rw [h]; simp, by rw [h']; simp⟩
  have hentities : tree.entities.size = (EntityOutline.sect name title members).rose.size := by
    rw [← length_plainEntities, h, length_entitiesOf, Rose.length_cells]
  have helements : tree.elements.size =
      widths ((EntityOutline.sect name title members).rose.cells none 0) := by
    rw [← length_plainElements, h', length_elementsOf]
  have hlinks := Links.linked_cells _ (hlaid.shows (flat_cells _))
  have hlinked := hlaid.elementsLinked
  rw [Nat.zero_add, ← hentities] at hlinks
  rw [Rose.length_cells, Nat.zero_add, ← hentities, ← helements] at hlinked
  have hroot := hlaid
  rw [EntityOutline.rose, Rose.cells_node] at hroot
  have he := hroot.cons.1
  have hnode : ∀ id, ∀ root ∈ tree.rootNode? id, id < tree.entities.size := by
    intro id root hmem
    refine Nat.lt_of_not_le fun hle => ?_
    rw [rootNode?, entity, Array.getD_eq_getD_getElem?, Array.getElem?_eq_none hle] at hmem
    cases hmem
  constructor
  · show (tree.entity 0).unplaced.content.isSection
    rw [he]
    rfl
  · exact hlinks.forest fun t ht => List.mem_singleton.mp ht ▸ congrArg Entity.parent he
  · refine Links.Linked.forest ?_ fun t ht => ?_
    · rw [rootNodes, List.range_eq_range']
      exact hlinked.linked
    · rw [rootNodes, List.mem_filterMap] at ht
      obtain ⟨k, hk, hroot⟩ := ht
      rw [List.mem_range] at hk
      exact (hlinked.rootNodes k (Nat.zero_le k) (by omega) t hroot).1
  · intro id root hmem
    exact (hlinked.rootNodes id (Nat.zero_le id) (by rw [Nat.zero_add]; exact hnode id root hmem)
      root hmem).2
  · exact fun id hid => hlinked.owned id (Nat.zero_le id) hid

end Tree

end Formulary

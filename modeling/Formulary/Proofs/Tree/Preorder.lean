import Formulary.Proofs.Tree.Lines
import Formulary.Proofs.Tree.Positions

/-!
# The rendering of a tree that was read

A tree is shown in pre-order: each section and array has a line before its members or items and a
line after them, each expression a line before its elements, and each element a line before those
under it.  A line stands two spaces deeper than what its node is in.

* `Tree.Linked.innerElements`: all elements are shown but the root nodes of the expressions.
* `count_join`: the line breaks of a text are its lines.
* `Tree.render_preorder`: the rendering of a tree is its pre-order.
-/

namespace Formulary

/-- A text of lines has as many line breaks as lines. -/
theorem count_join {ls : List String} (h : ∀ l ∈ ls, IsLine l) :
    (String.join ls).toList.count '\n' = ls.length := by
  induction ls with
  | nil => rfl
  | cons l ls ih =>
    rw [List.forall_mem_cons] at h
    obtain ⟨body, hl, hbody⟩ := h.1
    rw [String.join_cons, String.toList_append, List.count_append, ih h.2, hl, List.count_append,
      List.count_eq_zero_of_not_mem hbody, List.length_cons]
    exact Nat.add_comm 1 _

namespace Tree

variable {tree : Tree} {source : String} {ops : List String} {filename : Option String}

/-! ## Numbers of nodes -/

def countEntities (tree : Tree) (sort : Content → Bool) : Nat :=
  tree.entities.toList.countP fun e => sort e.content

theorem countP_range (tree : Tree) (sort : Content → Bool) :
    (List.range tree.entities.size).countP (fun id => sort (tree.entity id).content) =
      tree.countEntities sort := by
  have htable : tree.entities.toList = (List.range tree.entities.size).map tree.entity := by
    refine List.ext_getElem (by simp) fun i hi _ => ?_
    rw [Array.length_toList] at hi
    simp [entity, hi]
  rw [countEntities, htable, List.countP_map]
  rfl

theorem countEntities_isContainer (tree : Tree) : tree.countEntities Content.isContainer =
    tree.countEntities Content.isSection + tree.countEntities Content.isArray := by
  simp only [countEntities]
  induction tree.entities.toList with
  | nil => rfl
  | cons e es ih =>
    simp only [List.countP_cons, ih]
    cases e.content <;> simp [Content.isContainer, Content.isSection, Content.isArray] <;> omega

theorem length_rootNodes (tree : Tree) :
    tree.rootNodes.length = tree.countEntities Content.isExpression := by
  have hsome : ∀ id, (tree.rootNode? id).isSome = (tree.entity id).content.isExpression :=
    fun id => by
      rw [rootNode?]
      cases (tree.entity id).content <;> rfl
  rw [rootNodes, List.length_filterMap_eq_countP, ← countP_range]
  simp only [hsome]

/-- All elements are shown but the root nodes. -/
theorem Linked.innerElements (h : tree.Linked) : tree.innerElements 0 tree.elements.size =
    (List.range tree.elements.size).filter (· ∉ tree.rootNodes) := by
  rw [Tree.innerElements, ← List.range_eq_range']
  refine List.filter_congr fun e he => ?_
  rw [List.mem_range] at he
  by_cases hroot : e ∈ tree.rootNodes
  · have hparent : (tree.element e).parent = none := (h.elements.root e hroot).2.1
    simp [hparent, hroot]
  · obtain ⟨p, hp, -⟩ := h.elements.inner e he hroot
    have hparent : (tree.element e).parent = some p := hp
    simp [hparent, hroot]

/-- Each expression has one root node, and no two have the same. -/
theorem Linked.length_innerElements (h : tree.Linked) :
    ((List.range tree.elements.size).filter (· ∉ tree.rootNodes)).length +
      tree.countEntities Content.isExpression = tree.elements.size := by
  have hsublist := h.elements.sublist
  have hrange : (List.range tree.elements.size).Nodup := List.nodup_range
  have hroots : ((List.range tree.elements.size).filter (· ∈ tree.rootNodes)).Perm
      tree.rootNodes := by
    rw [List.perm_ext_iff_of_nodup (hrange.filter _) (hrange.sublist hsublist)]
    intro e
    simpa using fun he => List.mem_range.mp (hsublist.subset he)
  have hsplit := (List.range tree.elements.size).length_eq_length_filter_add
    (· ∈ tree.rootNodes)
  rw [List.length_range, hroots.length_eq, length_rootNodes] at hsplit
  have hinner : (List.range tree.elements.size).filter (· ∉ tree.rootNodes) =
      (List.range tree.elements.size).filter fun e => !decide (e ∈ tree.rootNodes) :=
    List.filter_congr fun e _ => decide_not
  rw [hinner, Nat.add_comm]
  exact hsplit.symm

/-! ## The rendering -/

/-- A tree that was read is shown in pre-order.  The loop over its pending tasks comes to an end and
performs what the recursion performs; the lines of these tasks are those of the outline and make up
the rendering, each by two spaces deeper at every level.  Each entity is shown once, and so is each
element that is no root node, which says how many lines there are. -/
theorem render_preorder (h : Tree.read source ops filename = .ok tree) :
    ∃ shown, tree.Performs [.entity root 0] shown ∧
      tree.Tour [.entity root 0] shown (tree.outline.lines 0) (List.range tree.entities.size)
        ((List.range tree.elements.size).filter (· ∉ tree.rootNodes)) ∧
      (∀ l ∈ tree.outline.lines 0, IsLine l) ∧
      tree.render = String.join (tree.outline.lines 0) ∧
      tree.render.toList.count '\n' + tree.countEntities Content.isExpression =
        tree.entities.size + tree.countEntities Content.isSection +
          tree.countEntities Content.isArray + tree.elements.size := by
  obtain ⟨-, d, -, -, -, hvalid, hholds⟩ := Tree.read_nested h
  have hlinked := linked_of_read h
  have hnamed := Document.named hvalid
  obtain ⟨shown, htour⟩ := hholds.tour hnamed
  have hlines : ∀ l ∈ d.outline.lines 0, IsLine l := fun l hl =>
    EntityOutline.isLine_of_mem_lines hnamed hl
  have hrender := hholds.render hnamed
  have hlength : (d.outline.lines 0).length = shown.length := by
    rw [← htour.lines, List.length_map]
  rw [hlinked.innerElements] at htour
  rw [hholds.outline]
  refine ⟨shown, performs_iff_preorder.mpr htour.preorder, htour, hlines, hrender, ?_⟩
  have hinner := hlinked.length_innerElements
  rw [hrender, count_join hlines, hlength, htour.preorder.length_performed, htour.entities,
    htour.elements, countP_range tree Content.isContainer, countEntities_isContainer,
    List.length_range]
  omega

def branchedSource : String := "#a{b=[#c{d=f(1,(e));},[]];g=2;}"

def branchedLines : List String :=
  ["SECTION 'a' \x7b\n", "  b = ARRAY [\n", "    SECTION 'c' \x7b\n", "      d = EXPRESSION\n",
    "        FUNCTION 'f'\n", "          ARGUMENT ''\n", "            NUMBER '1'\n",
    "          ARGUMENT ''\n", "            SYMBOL '('\n", "            IDENTIFIER 'e'\n",
    "            SYMBOL ')'\n", "    \x7d\n", "    ARRAY [\n", "    ]\n", "  ]\n",
    "  g = EXPRESSION\n", "    NUMBER '2'\n", "\x7d\n"]

/-- The elements 0 and 8 are the root nodes of the two expressions, which have no lines. -/
theorem render_preorder_branched : ∃ tree shown,
    Tree.read branchedSource defaultOperators none = .ok tree ∧
      tree.Performs [.entity root 0] shown ∧ shown.map (Task.line tree) = branchedLines ∧
      shown.filterMap Task.entity? = [0, 1, 2, 3, 4, 5] ∧
      shown.filterMap Task.element? = [1, 2, 3, 4, 5, 6, 7, 9] ∧
      tree.render = String.join branchedLines ∧ tree.render.toList.count '\n' = 18 := by
  obtain ⟨tree, h, hcheck⟩ : ∃ tree, Tree.read branchedSource defaultOperators none = .ok tree ∧
      decide (tree.outline.lines 0 = branchedLines ∧ tree.entities.size = 6 ∧
        tree.elements.size = 10 ∧ tree.rootNodes = [0, 8] ∧
        tree.countEntities Content.isExpression = 2 ∧ tree.countEntities Content.isSection = 2 ∧
        tree.countEntities Content.isArray = 2) :=
    Tree.exists_of_any (p := fun tree => decide (_ ∧ tree.entities.size = 6 ∧ _))
      (by decide +kernel)
  obtain ⟨hlines, hentities, helements, hroots, hexpressions, hsections, harrays⟩ :=
    of_decide_eq_true hcheck
  obtain ⟨shown, hperforms, htour, -, hrender, hcount⟩ := render_preorder h
  rw [hlines, hentities, helements, hroots] at htour
  rw [hlines] at hrender
  refine ⟨tree, shown, h, hperforms, htour.lines, htour.entities, htour.elements, hrender, ?_⟩
  omega

end Tree

end Formulary

import Formulary.Proofs.Layout.Spine
import Formulary.Proofs.Tree.Parens

/-!
# The counts of the elements

An element counts the parentheses that are open under it, and an expression those of its elements.

* `Tree.ParensFit`: what the count of an element says.
* `Tree.parensFit_block`: the elements of a frame, and all that is complete in it.
* `openSum`: the counts of the elements of an expression.
-/

namespace Formulary

open Formulary.Frame

namespace Tree

variable {ops : List String} {tree : Tree} {path : List ElementId} {owner base id n : Nat}

def inCall (tree : Tree) (path ids : List ElementId) : Bool :=
  ids.any fun id => (tree.element id).kind = .function && path.contains id

/-- The count of an element is that of the parentheses that its symbols leave open, and one more if
some of the nodes are in a call right under it. -/
def ParensFit (tree : Tree) (path : List ElementId) (id : ElementId) : Prop :=
  ∃ n, tree.unclosed (tree.element id).children.toList 0 = some n ∧
    (tree.element id).openParens =
      n + if tree.inCall path (tree.element id).children.toList then 1 else 0

theorem inCall_append (path ids ids' : List ElementId) :
    tree.inCall path (ids ++ ids') = (tree.inCall path ids || tree.inCall path ids') :=
  List.any_append

theorem inCall_of_not_mem {ids : List ElementId} (h : ∀ id ∈ ids, id ∉ path) :
    tree.inCall path ids = false := by
  rw [inCall, List.any_eq_false]
  intro id hid
  simp [h id hid]

theorem inCall_of_ne {ids : List ElementId} (h : ∀ id ∈ ids, (tree.element id).kind ≠ .function) :
    tree.inCall path ids = false := by
  rw [inCall, List.any_eq_false]
  intro id hid
  simp [h id hid]

/-- Where all is at rest, the counts are zero. -/
theorem Rested.parensFit (h : tree.Rested id n) (hbeside : ∀ p, id ≤ p → p < id + n → p ∉ path) :
    ∀ e, id ≤ e → e < id + n → tree.ParensFit path e := by
  intro e hle hlt
  refine ⟨0, h.unclosed e hle hlt, ?_⟩
  rw [h.openParens e hle hlt, inCall_of_not_mem]
  · rfl
  · intro c hc
    obtain ⟨hle', hlt'⟩ := h.inside e hle hlt c (Array.mem_toList_iff.mp hc)
    exact hbeside c hle' hlt'

variable {f : Frame ElementLabel} {fs : List (Frame ElementLabel)} {inner : List Nat}

/-- The count of a frame, and those of all that is complete in it. -/
theorem Placed.parensFit_block (h : tree.Placed owner (next base fs) (block base f fs inner))
    (hbeside : ∀ p, next base fs < p → p < next base (f :: fs) → p ∉ path)
    (hrested : tree.Rested (next base fs + 1) (Rose.sizes f.closed))
    (hunclosed : tree.unclosed (Rose.places (next base fs + 1) f.closed ++ inner) 0 = some n)
    (hlabel : f.label.openParens = n + if tree.inCall path inner then 1 else 0) :
    ∀ e, next base fs ≤ e → e < next base (f :: fs) → tree.ParensFit path e := by
  intro e hle hlt
  rw [next_cons] at hlt hbeside
  rcases Nat.eq_or_lt_of_le hle with rfl | hinside
  · have he := h.cons.1
    have hchildren : (tree.element (next base fs)).children.toList =
        Rose.places (next base fs + 1) f.closed ++ inner :=
      congrArg (fun e => e.children.toList) he
    have hclosed : tree.inCall path (Rose.places (next base fs + 1) f.closed) = false := by
      refine inCall_of_not_mem fun p hp => hbeside p ?_ ?_
      · have := Rose.le_of_mem_places hp
        omega
      · exact Rose.lt_of_mem_places hp
    refine ⟨n, by rw [hchildren, hunclosed], ?_⟩
    rw [hchildren, inCall_append, hclosed, Bool.false_or, ← hlabel]
    exact congrArg Element.openParens he
  · exact hrested.parensFit (fun p hle hlt => hbeside p hle hlt) e hinside hlt

/-- An element in a part of the table. -/
theorem element_mem {before after : List Element} (h : tree.plainElements = before ++ after)
    (hid : id < before.length) : (tree.element id).unplaced ∈ before := by
  have hsplit : before = before.take id ++ before[id] :: before.drop (id + 1) := by simp
  rw [hsplit, List.append_assoc, List.cons_append] at h
  have he := element_of_eq h
  rw [List.length_take_of_le (Nat.le_of_lt hid)] at he
  rw [he]
  exact List.getElem_mem hid

end Tree

/-! ## Sums -/

/-- The counts of those elements of a table that belong to an expression. -/
def openSum (id : EntityId) : List Element → Nat
  | [] => 0
  | e :: es => (if e.expression = id then e.openParens else 0) + openSum id es

variable {id owner : EntityId}

theorem openSum_append (id : EntityId) (es es' : List Element) :
    openSum id (es ++ es') = openSum id es + openSum id es' := by
  induction es with
  | nil => exact (Nat.zero_add _).symm
  | cons e es ih => rw [List.cons_append, openSum, openSum, ih, Nat.add_assoc]

theorem openSum_unplaced (id : EntityId) (es : List Element) :
    openSum id (es.map Element.unplaced) = openSum id es := by
  induction es with
  | nil => rfl
  | cons e es ih =>
    rw [List.map_cons, openSum, openSum, ih]
    rfl

theorem openSum_of_ne {es : List Element} (h : ∀ e ∈ es, e.expression ≠ id) :
    openSum id es = 0 := by
  induction es with
  | nil => rfl
  | cons e es ih =>
    rw [List.forall_mem_cons] at h
    rw [openSum, if_neg h.1, ih h.2]

theorem openSum_eq_zero {es : List Element} :
    openSum id es = 0 ↔ ∀ e ∈ es, e.expression = id → e.openParens = 0 := by
  induction es with
  | nil => simp [openSum]
  | cons e es ih =>
    rw [openSum, List.forall_mem_cons, Nat.add_eq_zero_iff, ih]
    by_cases h : e.expression = id <;> simp [h]

def labelSum : List (Cell ElementLabel) → Nat
  | [] => 0
  | c :: cs => c.label.openParens + labelSum cs

theorem labelSum_append (cs ds : List (Cell ElementLabel)) :
    labelSum (cs ++ ds) = labelSum cs + labelSum ds := by
  induction cs with
  | nil => exact (Nat.zero_add _).symm
  | cons c cs ih => rw [List.cons_append, labelSum, labelSum, ih, Nat.add_assoc]

theorem labelSum_eq_zero {cs : List (Cell ElementLabel)} (h : ∀ c ∈ cs, c.label.openParens = 0) :
    labelSum cs = 0 := by
  induction cs with
  | nil => rfl
  | cons c cs ih =>
    rw [List.forall_mem_cons] at h
    rw [labelSum, h.1, ih h.2]

theorem openSum_cells (cs : List (Cell ElementLabel)) :
    openSum owner (cs.map (Cell.element owner)) = labelSum cs := by
  induction cs with
  | nil => rfl
  | cons c cs ih =>
    rw [List.map_cons, openSum, labelSum, ih]
    exact congrArg (· + labelSum cs) (if_pos rfl)

/-- The elements of entities that are laid out belong to these and count nothing. -/
theorem elementsOf_spec : ∀ (owner : EntityId) (first : ElementId) (cs : List (Cell EntityLabel)),
    ∀ e ∈ elementsOf owner first cs, owner ≤ e.expression ∧ e.expression < owner + cs.length ∧
      e.openParens = 0
  | _, _, [] => nofun
  | owner, first, c :: cs => by
    rw [elementsOf, List.length_cons]
    refine List.forall_mem_append.mpr ⟨fun e he => ?_, fun e he => ?_⟩
    · cases hc : c.label with
      | sect name title =>
        rw [hc] at he
        cases he
      | array name =>
        rw [hc] at he
        cases he
      | expression name row =>
        rw [hc, EntityLabel.elements, List.mem_map] at he
        obtain ⟨d, hd, rfl⟩ := he
        refine ⟨Nat.le_refl owner, Nat.lt_add_of_pos_right (Nat.succ_pos _), ?_⟩
        rw [ElementOutline.rootRose, Rose.cells_node, List.mem_cons] at hd
        rcases hd with rfl | hd
        · rfl
        · exact Tree.openParens_rowCells row d hd
    · obtain ⟨hle, hlt, hparens⟩ := elementsOf_spec (owner + 1) _ cs e he
      refine ⟨Nat.le_of_succ_le hle, ?_, hparens⟩
      rwa [Nat.add_assoc, Nat.add_comm 1] at hlt

/-- The elements of an outline count nothing. -/
theorem Tree.openParens_of_outline {tree : Tree} {o : EntityOutline} {id : ElementId}
    (h : tree.plainElements = elementsOf 0 0 (o.rose.cells none 0))
    (hid : id < tree.elements.size) : (tree.element id).openParens = 0 := by
  rw [← length_plainElements, h] at hid
  rw [← List.append_nil (elementsOf _ _ _)] at h
  exact (elementsOf_spec 0 0 _ _ (element_mem h hid)).2.2

end Formulary

import Mathlib.Data.List.Forall2
import Formulary.Proofs.Calculator.OnePass
import Formulary.Proofs.Calculator.Splitting
import Formulary.Proofs.Reader.Soundness

/-!
# The order of evaluation

* `Calculator.Ranks`: the priority that a table of operators gives.
* `Calculator.Represents`: what an element is in a row, with the priorities of the table.
* `Tree.FormsRow.exists_phrase`: the row under an element is that of a phrase.
* `Calculator.exists_operation`: the row under an element stands for a tree of operations.
* `Calculator.exists_operation_arguments`, `Calculator.exists_operation_once`: what is in that tree.
* `Calculator.postfixOrder_eq_postorder`: the elements under it are ordered as that tree is.
-/

namespace Formulary

variable {m : Type → Type} {ops : List String} {tree : Tree}

/-! ## Rows of elements -/

namespace Tree

/-- An element that yields a value on its own. -/
def IsLeafOperand (tree : Tree) (id : ElementId) : Prop :=
  (tree.element id).kind = .number ∨ (tree.element id).kind = .string ∨
    (tree.element id).kind = .identifier ∨ (tree.element id).kind = .function

def IsOperator (tree : Tree) (id : ElementId) : Prop := (tree.element id).kind = .operator

def values (tree : Tree) (ids : List ElementId) : List ElementId :=
  ids.filter fun id => (tree.element id).kind ≠ .symbol

end Tree

namespace Calculator

/-- The priority of an operator by the table of a calculator: that of the registration in front,
which is the last one for this operator, and -1 if there is none. -/
inductive Ranks (c : Calculator m) (symbol : String) : Int → Prop
  | known {before after : List (String × KnownOperator)} {priority : Int} {library : String} :
      c.operators = before ++ (symbol, ⟨priority, library⟩) :: after →
      (∀ entry ∈ before, entry.1 ≠ symbol) → Ranks c symbol priority
  | unknown : (∀ entry ∈ c.operators, entry.1 ≠ symbol) → Ranks c symbol (-1)

theorem ranks_iff {c : Calculator m} {symbol : String} {p : Int} :
    c.Ranks symbol p ↔ c.priority symbol = p := by
  rw [priority, operator?]
  constructor
  · rintro (⟨heq, hbefore⟩ | hnone)
    · have hlookup := List.lookup_eq_some_iff.mpr
        ⟨_, _, heq, fun entry hentry => bne_iff_ne.mpr (hbefore entry hentry).symm⟩
      rw [hlookup]
      rfl
    · have hlookup : c.operators.lookup symbol = none :=
        List.lookup_eq_none_iff.mpr fun entry hentry => bne_iff_ne.mpr (hnone entry hentry).symm
      rw [hlookup]
      rfl
  · rintro rfl
    cases hlookup : c.operators.lookup symbol with
    | none =>
      have hnone := List.lookup_eq_none_iff.mp hlookup
      exact .unknown fun entry hentry => (bne_iff_ne.mp (hnone entry hentry)).symm
    | some known =>
      obtain ⟨before, after, heq, hbefore⟩ := List.lookup_eq_some_iff.mp hlookup
      exact .known heq fun entry hentry => (bne_iff_ne.mp (hbefore entry hentry)).symm

/-- What an element is in a row, by its kind and its text; an operator has the priority of the
table. -/
inductive Represents (c : Calculator m) (tree : Tree) (id : ElementId) : Token ElementId → Prop
  | operand : tree.IsLeafOperand id → Represents c tree id (.operand id)
  | operator {p : Int} : tree.IsOperator id → c.Ranks (tree.element id).text p →
      Represents c tree id (.operator id p)
  | openParen : (tree.element id).kind = .symbol → (tree.element id).text = "(" →
      Represents c tree id .openParen
  | closeParen : (tree.element id).kind = .symbol → (tree.element id).text = ")" →
      Represents c tree id .closeParen

theorem Represents.token?_eq {c : Calculator m} {id : ElementId} {t : Token ElementId}
    (h : c.Represents tree id t) : c.token? tree id = some t := by
  cases h with
  | operand h => rcases h with h | h | h | h <;> simp [token?, h]
  | operator h hranks =>
    have h : (tree.element id).kind = .operator := h
    simp [token?, h, ranks_iff.mp hranks]
  | openParen h htext => simp [token?, h, htext]
  | closeParen h htext => simp [token?, h, htext]

theorem filterMap_of_represents {c : Calculator m} {ids : List ElementId}
    {ts : List (Token ElementId)} (h : List.Forall₂ (c.Represents tree) ids ts) :
    ids.filterMap (c.token? tree) = ts := by
  induction h with
  | nil => rfl
  | cons hid _ ih => rw [List.filterMap_cons, hid.token?_eq, ih]

end Calculator

namespace Tree

/-- Elements are what a phrase consists of. -/
structure Shows (c : Calculator m) (tree : Tree) (ids : List ElementId)
    (tokens : List (Token ElementId)) (names : List ElementId) : Prop where
  represents : List.Forall₂ (c.Represents tree) ids tokens
  names : tree.values ids = names

theorem Shows.tokens {c : Calculator m} {ids : List ElementId} {ts : List (Token ElementId)}
    {ns : List ElementId} (h : tree.Shows c ids ts ns) : ids.filterMap (c.token? tree) = ts :=
  Calculator.filterMap_of_represents h.represents

theorem Shows.append {c : Calculator m} {ids ids' : List ElementId}
    {ts ts' : List (Token ElementId)} {ns ns' : List ElementId} (h : tree.Shows c ids ts ns)
    (h' : tree.Shows c ids' ts' ns') : tree.Shows c (ids ++ ids') (ts ++ ts') (ns ++ ns') := by
  refine ⟨List.rel_append h.represents h'.represents, ?_⟩
  rw [values, List.filter_append, ← h.names, ← h'.names]
  rfl

theorem IsLeafOperand.shows {id : ElementId} (h : tree.IsLeafOperand id) (c : Calculator m) :
    tree.Shows c [id] [.operand id] [id] := by
  refine ⟨.cons (.operand h) .nil, ?_⟩
  rcases h with h | h | h | h <;> simp [values, h]

theorem IsOperator.shows {id : ElementId} (h : tree.IsOperator id) (c : Calculator m) :
    tree.Shows c [id] [.operator id (c.priority (tree.element id).text)] [id] := by
  refine ⟨.cons (.operator h (Calculator.ranks_iff.mpr rfl)) .nil, ?_⟩
  have h : (tree.element id).kind = .operator := h
  simp [values, h]

theorem shows_open {id : ElementId} (h : (tree.element id).kind = .symbol)
    (ht : (tree.element id).text = "(") (c : Calculator m) : tree.Shows c [id] [.openParen] [] :=
  ⟨.cons (.openParen h ht) .nil, by simp [values, h]⟩

theorem shows_close {id : ElementId} (h : (tree.element id).kind = .symbol)
    (ht : (tree.element id).text = ")") (c : Calculator m) : tree.Shows c [id] [.closeParen] [] :=
  ⟨.cons (.closeParen h ht) .nil, by simp [values, h]⟩

mutual

theorem FormsTerm.exists_atom (c : Calculator m) {ids : List ElementId} :
    tree.FormsTerm ids → ∃ t : Atom ElementId,
      tree.Shows c ids t.tokens t.names ∧ t.All tree.IsLeafOperand tree.IsOperator
  | @FormsTerm.number _ id h =>
    have hid : tree.IsLeafOperand id := .inl h
    ⟨.operand id, hid.shows c, hid⟩
  | @FormsTerm.string _ id h =>
    have hid : tree.IsLeafOperand id := .inr (.inl h)
    ⟨.operand id, hid.shows c, hid⟩
  | @FormsTerm.identifier _ id h =>
    have hid : tree.IsLeafOperand id := .inr (.inr (.inl h))
    ⟨.operand id, hid.shows c, hid⟩
  | @FormsTerm.function _ id h =>
    have hid : tree.IsLeafOperand id := .inr (.inr (.inr h))
    ⟨.operand id, hid.shows c, hid⟩
  | .paren hopen htext hinside hclose htext' => by
    obtain ⟨f, hshows, hall⟩ := FormsRow.exists_phrase c hinside
    refine ⟨.paren f, ?_, hall⟩
    have hshown := ((shows_open hopen htext c).append hshows).append (shows_close hclose htext' c)
    simpa [Atom.tokens, Atom.names] using hshown

theorem FormsRow.exists_phrase (c : Calculator m) {ids : List ElementId} :
    tree.FormsRow ids → ∃ f : Phrase ElementId,
      tree.Shows c ids f.tokens f.names ∧ f.All tree.IsLeafOperand tree.IsOperator
  | .term hterm => by
    obtain ⟨t, hshows, hall⟩ := FormsTerm.exists_atom c hterm
    exact ⟨.atom t, hshows, hall⟩
  | @FormsRow.operate _ ids ids' id hleft hkind hright => by
    obtain ⟨f, hf, hfall⟩ := FormsRow.exists_phrase c hleft
    obtain ⟨t, ht, htall⟩ := FormsTerm.exists_atom c hright
    have hid : tree.IsOperator id := hkind
    refine ⟨.operate f id (c.priority (tree.element id).text) t, ?_, hfall, hid, htall⟩
    exact hf.append ((hid.shows c).append ht)

end

end Tree

/-! ## Elements with a row -/

/-- An element that has a row of its own: the root node of an expression, or an argument with
something in it. -/
def Tree.HasRow (tree : Tree) (id : ElementId) : Prop :=
  (tree.element id).kind = .node ∨
    (tree.element id).kind = .argument ∧ (tree.element id).children ≠ #[]

theorem Tree.WellFormed.formsRow (h : tree.WellFormed ops) {id : ElementId}
    (hid : id < tree.elements.size) (hrow : tree.HasRow id) :
    tree.FormsRow (tree.element id).children.toList := by
  have hkind := (h.elements id hid).kind
  rw [Tree.KindFits] at hkind
  rcases hrow with hnode | ⟨hargument, hne⟩
  · rw [hnode] at hkind
    exact hkind.2
  · rw [hargument] at hkind
    exact hkind.2.resolve_left hne

/-- The row under an element stands for a tree of operations, and is ordered as that tree is. -/
theorem Calculator.exists_operation (c : Calculator m) (h : tree.WellFormed ops) {id : ElementId}
    (hid : id < tree.elements.size) (hrow : tree.HasRow id) :
    ∃ op, Operation.ofRow? (c.row tree id) = some op ∧ c.postfixOrder tree id = op.postorder ∧
      op.postorder.Perm (tree.values (tree.element id).children.toList) ∧
      op.All tree.IsLeafOperand tree.IsOperator := by
  obtain ⟨f, hshows, hall⟩ := (h.formsRow hid hrow).exists_phrase c
  have htokens : c.row tree id = f.tokens := hshows.tokens
  refine ⟨f.operation, ?_, ?_, ?_, f.operation_all hall⟩
  · rw [htokens, f.ofRow_tokens]
  · rw [Calculator.postfixOrder, htokens, f.order_tokens]
  · rw [hshows.names]
    exact f.postorder_perm

/-- Only calls have something under them, and that is their arguments. -/
theorem Tree.WellFormed.kind_of_mem_children (hfits : tree.WellFormed ops) {id a : ElementId}
    (hid : id < tree.elements.size) (hvalue : tree.IsLeafOperand id ∨ tree.IsOperator id)
    (ha : a ∈ (tree.element id).children) :
    (tree.element id).kind = .function ∧ (tree.element a).kind = .argument := by
  have hkind := (hfits.elements id hid).kind
  have hchildren : (tree.element id).children ≠ #[] := Array.ne_empty_of_mem ha
  rw [Tree.KindFits] at hkind
  rcases hvalue with (h | h | h | h) | h
  · rw [h] at hkind
    exact absurd hkind.2 hchildren
  · rw [h] at hkind
    exact absurd hkind hchildren
  · rw [h] at hkind
    exact absurd hkind.2 hchildren
  · rw [h] at hkind
    exact ⟨h, hkind.2.argument a ha⟩
  · rw [show (tree.element id).kind = .operator from h] at hkind
    exact absurd hkind.2 hchildren

theorem Calculator.mem_arguments {id a : ElementId} : a ∈ Calculator.arguments tree id ↔
    a ∈ (tree.element id).children ∧ (tree.element a).children ≠ #[] := by
  rw [Calculator.arguments, List.mem_filter, Array.mem_toList_iff]
  simp

theorem Tree.CallFits.children_eq {id a : ElementId} (h : tree.CallFits (tree.element id))
    (ha : Calculator.arguments tree id = [a]) : (tree.element id).children = #[a] := by
  have hfull : ∀ b ∈ (tree.element id).children.toList,
      (!(tree.element b).children.isEmpty) = true := by
    intro b hb
    by_contra hempty
    have hb' : (tree.element b).children = #[] := by simpa using hempty
    -- an empty argument would be the only one
    have hsole := h.sole b (Array.mem_toList_iff.mp hb) hb'
    rw [Calculator.arguments, hsole] at ha
    simp [hb'] at ha
  rw [Calculator.arguments, List.filter_eq_self.mpr hfull] at ha
  exact Array.toList_inj.mp ha

theorem Calculator.hasRow_of_mem_arguments (hfits : tree.WellFormed ops) {id a : ElementId}
    (hid : id < tree.elements.size) (hvalue : tree.IsLeafOperand id ∨ tree.IsOperator id)
    (ha : a ∈ Calculator.arguments tree id) : a < tree.elements.size ∧ tree.HasRow a := by
  obtain ⟨hchild, hne⟩ := mem_arguments.mp ha
  have hargument := (hfits.kind_of_mem_children hid hvalue hchild).2
  exact ⟨(hfits.elements id hid).inside a hchild, .inr ⟨hargument, hne⟩⟩

/-- The tree of operations of a row, in the calls of which only rows are evaluated. -/
theorem Calculator.exists_operation_arguments (c : Calculator m) (hfits : tree.WellFormed ops)
    {id : ElementId} (hid : id < tree.elements.size) (hrow : tree.HasRow id) :
    ∃ op, Operation.ofRow? (c.row tree id) = some op ∧ c.postfixOrder tree id = op.postorder ∧
      op.All tree.IsLeafOperand tree.IsOperator ∧
      ∀ e ∈ op.postorder, ∀ a ∈ Calculator.arguments tree e,
        a < tree.elements.size ∧ tree.HasRow a := by
  obtain ⟨op, hop, horder, hperm, hall⟩ := c.exists_operation hfits hid hrow
  refine ⟨op, hop, horder, hall, fun e he a ha => ?_⟩
  have hchild := (List.mem_filter.mp (hperm.mem_iff.mp he)).1
  have he' := (hfits.elements id hid).inside e (Array.mem_toList_iff.mp hchild)
  exact hasRow_of_mem_arguments hfits he' (hall.of_mem he) ha

/-- The tree of operations of a row has each of its operands and operators once, and no
parenthesis. -/
theorem Calculator.exists_operation_once (c : Calculator m) (h : tree.WellFormed ops)
    {id : ElementId} (hid : id < tree.elements.size) (hrow : tree.HasRow id) :
    ∃ op, Operation.ofRow? (c.row tree id) = some op ∧ c.postfixOrder tree id = op.postorder ∧
      op.postorder.Nodup ∧ ∀ e, e ∈ op.postorder ↔
        e ∈ (tree.element id).children ∧ (tree.element e).kind ≠ .symbol := by
  obtain ⟨op, hop, horder, hperm, -⟩ := c.exists_operation h hid hrow
  have hnodup : (tree.values (tree.element id).children.toList).Nodup :=
    ((h.elements id hid).ordered.imp Nat.ne_of_lt).filter _
  refine ⟨op, hop, horder, hperm.nodup_iff.mpr hnodup, fun e => ?_⟩
  rw [hperm.mem_iff, Tree.values, List.mem_filter, Array.mem_toList_iff, decide_eq_true_eq]

/-- The elements under a node or an argument represent one row, with the priorities of the table of
operators.  They are ordered as the tree of operations of that row is; each operand and each
operator occurs once, and no parenthesis does. -/
theorem Calculator.postfixOrder_eq_postorder (c : Calculator m) {source : String}
    {filename : Option String} (h : Tree.read source ops filename = .ok tree) {id : ElementId}
    (hid : id < tree.elements.size) (hrow : tree.HasRow id) :
    ∃ row op, (∀ ts, List.Forall₂ (c.Represents tree) (tree.element id).children.toList ts ↔
        ts = row) ∧
      Operation.ofRow? row = some op ∧ c.postfixOrder tree id = op.postorder ∧
      (c.postfixOrder tree id).Nodup ∧ ∀ e, e ∈ c.postfixOrder tree id ↔
        e ∈ (tree.element id).children ∧ (tree.element e).kind ≠ .symbol := by
  have hfits := Tree.wellFormed_of_read h
  obtain ⟨op, hop, horder, hnodup, hmem⟩ := c.exists_operation_once hfits hid hrow
  obtain ⟨f, hshows, -⟩ := (hfits.formsRow hid hrow).exists_phrase c
  rw [← horder] at hnodup hmem
  refine ⟨c.row tree id, op, fun ts => ⟨fun hts => ?_, ?_⟩, hop, horder, hnodup, hmem⟩
  · exact (filterMap_of_represents hts).symm
  · rintro rfl
    rw [row, hshows.tokens]
    exact hshows.represents

/-- A row with parentheses and operators of two priorities. -/
def orderSource : String := "#a{b=1-2+3-4*(5+6);}"

/-- A calculator that knows two operators, one of them with the priority of those that it does not
know. -/
def sparseCalculator : Calculator Id where
  libraries := []
  operators := [("*", ⟨6, "math"⟩), ("-", ⟨-1, "math"⟩)]
  depthLimit := Calculator.standardDepthLimit

def orderRow : List (Token ElementId) :=
  [.operand 1, .operator 2 (-1), .operand 3, .operator 4 (-1), .operand 5, .operator 6 (-1),
    .operand 7, .operator 8 6, .openParen, .operand 10, .operator 11 (-1), .operand 12, .closeParen]

/-- The unknown `+` binds as tight as `-` and takes its place among them from the left. -/
theorem Calculator.postfixOrder_sparse : ∃ tree,
    Tree.read orderSource defaultOperators none = .ok tree ∧ tree.HasRow 0 ∧
      List.Forall₂ (sparseCalculator.Represents tree) (tree.element 0).children.toList orderRow ∧
      sparseCalculator.postfixOrder tree 0 = [1, 3, 2, 5, 4, 7, 10, 12, 11, 8, 6] ∧
      [1, 3, 2, 5, 4, 7, 10, 12, 11, 8, 6].map (fun e => (tree.element e).text) =
        ["1", "2", "-", "3", "+", "4", "5", "6", "+", "*", "-"] := by
  obtain ⟨tree, h, hcheck⟩ : ∃ tree, Tree.read orderSource defaultOperators none = .ok tree ∧
      decide (0 < tree.elements.size ∧ (tree.element 0).kind = .node ∧
        sparseCalculator.row tree 0 = orderRow ∧
        [1, 3, 2, 5, 4, 7, 10, 12, 11, 8, 6].map (fun e => (tree.element e).text) =
          ["1", "2", "-", "3", "+", "4", "5", "6", "+", "*", "-"]) :=
    Tree.exists_of_any (p := fun tree => decide (0 < tree.elements.size ∧ _ ∧ _ ∧ _))
      (by decide +kernel)
  obtain ⟨hid, hnode, hshown, htexts⟩ := of_decide_eq_true hcheck
  obtain ⟨row, op, hrow, hop, horder, -, -⟩ :=
    sparseCalculator.postfixOrder_eq_postorder h hid (.inl hnode)
  have hrepresents := (hrow row).mpr rfl
  obtain rfl : orderRow = row := hshown.symm.trans (filterMap_of_represents hrepresents)
  have hop' : Operation.ofRow? orderRow = some (.apply 6
      (.apply 4 (.apply 2 (.operand 1) (.operand 3)) (.operand 5))
      (.apply 8 (.operand 7) (.apply 11 (.operand 10) (.operand 12)))) := by decide
  obtain rfl := Option.some.inj (hop.symm.trans hop')
  exact ⟨tree, h, .inl hnode, hrepresents, horder, htexts⟩

end Formulary

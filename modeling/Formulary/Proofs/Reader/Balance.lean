import Formulary.Proofs.Reader.Braces
import Formulary.Proofs.Reader.Finished
import Formulary.Proofs.Reader.Soundness

/-!
# What the counts of a reading say

The state of a reading keeps no stack.  In every state that a reading comes to, its counts are those
of what is open around the current entity and the current element, so they go down only where they
are not zero, and in the tree that is read in the end they are zero.

* `Reader.EntityCounts`, `Reader.ElementCounts`: what the counts say.
* `Reader.Balanced`: both of them, in one state.
* `Reader.counts_balanced`: every state is balanced, every character changes the counts as it
  should, and nothing is left open in a tree.
-/

namespace Formulary

open Nest OpenFormula Formulary.Frame

/-! ## The path of the current entity -/

def Nest.path : Nest → List EntityId
  | entity e es => spine 0 (entityFrames (e :: es))
  | row e es _ _ => place (e :: es) :: spine 0 (entityFrames (e :: es))
  | done _ => [0]

theorem Nest.getLast?_path (n : Nest) : n.path.getLast? = some Tree.root := by
  cases n with
  | entity e es => exact getLast?_spine e.frame (entityFrames es)
  | row e es name f =>
    have hlast : (spine 0 (entityFrames (e :: es))).getLast? = some 0 :=
      getLast?_spine e.frame (entityFrames es)
    rw [path, List.getLast?_cons, hlast]
    rfl
  | done root => rfl

/-- Counting open entities is counting on their path. -/
theorem countP_spine {P : OpenEntity → Bool} {Q : EntityId → Bool} (es : List OpenEntity)
    (h : ∀ e es', e :: es' <:+ es → Q (place es') = P e) :
    (spine 0 (entityFrames es)).countP Q = es.countP P := by
  induction es with
  | nil => rfl
  | cons e es ih =>
    have hhead : Q (next 0 (entityFrames es)) = P e := h e es (List.suffix_refl _)
    have htail := ih fun e' es' hs => h e' es' (hs.trans (List.suffix_cons e es))
    show (next 0 (entityFrames es) :: spine 0 (entityFrames es)).countP Q = _
    rw [List.countP_cons, List.countP_cons, htail, hhead]

theorem Nest.entities_at {n : Nest} {e : OpenEntity} {es : List OpenEntity}
    (hs : e :: es <:+ n.opened) : ∃ children after rest, n.entities =
      entitiesOf 0 (outerCells es ++ ⟨e.label, children, top? 0 (entityFrames es)⟩ :: after) ++
        rest := by
  obtain ⟨gs, hgs⟩ := hs
  have hframes : entityFrames n.opened = entityFrames gs ++ e.frame :: entityFrames es := by
    rw [← hgs, entityFrames, List.map_append]
    rfl
  cases n with
  | entity e' es' =>
    obtain ⟨children, after, hcells⟩ := cells_at 0 e.frame (entityFrames es) (entityFrames gs)
    refine ⟨children, after, [], ?_⟩
    rw [List.append_nil]
    exact congrArg (entitiesOf 0) ((congrArg (Frame.cells 0) hframes).trans hcells)
  | row e' es' name f =>
    obtain ⟨children, after, hcells⟩ := outer_at 0 e.frame (entityFrames es) (entityFrames gs)
    have houter : outerCells (e' :: es') = _ :=
      (congrArg (Frame.outer 0) hframes).trans hcells
    exact ⟨children, after, _, by rw [Nest.entities, houter]; rfl⟩
  | done root =>
    have hlength := congrArg List.length hgs
    simp [Nest.opened] at hlength

theorem Nest.countP_path {P : OpenEntity → Bool} {Q : EntityId → Bool} (n : Nest)
    (h : ∀ e es, e :: es <:+ n.opened → Q (place es) = P e)
    (hcurrent : (∀ e es, n ≠ .entity e es) → Q n.current = false) :
    n.path.countP Q = n.opened.countP P := by
  cases n with
  | entity e es => exact countP_spine (e :: es) h
  | row e es name f =>
    have hrow : Q (place (e :: es)) = false := hcurrent nofun
    rw [path, List.countP_cons, hrow]
    exact countP_spine (e :: es) h
  | done root =>
    have hroot : Q 0 = false := hcurrent nofun
    rw [path, List.countP_cons, hroot]
    rfl

theorem Cell.parent_entity (c : Cell EntityLabel) (root : ElementId) :
    (c.entity root).parent = c.parent := by
  obtain ⟨label, children, parent⟩ := c
  cases label <;> rfl

namespace Reader

variable {r : Reader} {n : Nest} {e : OpenEntity} {es : List OpenEntity}

theorem Shows.entity_at (h : r.Shows n) (hs : e :: es <:+ n.opened) :
    ∃ children root, (r.tree.entity (place es)).unplaced =
      Cell.entity root ⟨e.label, children, top? 0 (entityFrames es)⟩ := by
  obtain ⟨children, after, rest, hentities⟩ := Nest.entities_at hs
  rw [← h.entities, entitiesOf_append, entitiesOf, List.append_assoc, List.cons_append] at hentities
  have he := Tree.entity_of_eq hentities
  rw [Nest.length_entities_place] at he
  exact ⟨children, _, he⟩

theorem Shows.content_at (h : r.Shows n) (hs : e :: es <:+ n.opened) :
    (r.tree.entity (place es)).content.isArray = e.isArray ∧
      (r.tree.entity (place es)).content.isSection = !e.isArray := by
  obtain ⟨children, root, he⟩ := h.entity_at hs
  have hcontent : (r.tree.entity (place es)).content = _ := (congrArg Entity.content he :)
  rw [hcontent]
  cases e <;> exact ⟨rfl, rfl⟩

/-- The parents of an open entity are the open ones around it. -/
theorem Shows.path_opened (h : r.Shows n) (hn : n.opened = e :: es) :
    r.tree.entityLinks.Path (place es) (spine 0 (entityFrames (e :: es))) := by
  refine path_spine (f := e.frame) fun g fs hsuffix => ?_
  have hsuffix : g :: fs <:+ (e :: es).map OpenEntity.frame := hsuffix
  obtain ⟨l, hl, heq⟩ := List.suffix_map_iff.mp hsuffix
  obtain ⟨e', es', rfl, rfl, rfl⟩ := List.map_eq_cons_iff.mp heq.symm
  obtain ⟨children, root, he⟩ := h.entity_at (hn ▸ hl)
  exact (congrArg Entity.parent he).trans (Cell.parent_entity _ root)

theorem Shows.entity_path (h : r.Shows n) : r.tree.entityLinks.Path r.current n.path := by
  rw [h.current]
  cases n with
  | entity e es => exact h.path_opened rfl
  | row e es name f =>
    refine .step ?_ (h.path_opened rfl)
    have hparent : r.entity.parent = some (place es) := congrArg Entity.parent h.entity_row
    rw [entity, show r.current = place (e :: es) from h.current] at hparent
    exact hparent
  | done root =>
    refine .root ?_
    have hentities : r.tree.plainEntities = entitiesOf 0 (root.rose.cells none 0) := h.entities
    cases hrose : root.rose with
    | node a ts =>
      rw [hrose, Rose.cells_node, entitiesOf] at hentities
      have hcells : r.tree.plainEntities = [] ++ _ :: _ := hentities
      have he := Tree.entity_of_eq hcells
      exact (congrArg Entity.parent he).trans (Cell.parent_entity _ 0)

/-! ## What the counts say -/

/-- The counts of open arrays and sections are those on a path: it leads from the current entity to
the root, and a section on it is open from its opening brace to its closing one. -/
structure EntityCounts (r₀ : Reader) (pre : List Char) (r : Reader) (ids : List EntityId) :
    Prop where
  path : r.tree.entityLinks.Path r.current ids
  last : ids.getLast? = some Tree.root
  openArrays : r.openArrays = ids.countP fun id => (r.tree.entity id).content.isArray
  openSections : r.openSections = ids.countP fun id => (r.tree.entity id).content.isSection &&
    r₀.readIn '{' id pre && !r₀.readIn '}' id pre

/-- The counts in the current expression: a path leads from the current element to the root node,
every element counts what is open under it, and the expression counts it all together. -/
structure ElementCounts (r : Reader) (root : ElementId) (openParens : Nat) (id : ElementId)
    (ids : List ElementId) : Prop where
  element : r.element = some id
  expression : (r.tree.element id).expression = r.current
  path : r.tree.elementLinks.Path id ids
  last : ids.getLast? = some root
  root : (r.tree.element root).kind = .node
  sum : openParens = openSum r.current r.tree.elements.toList
  fits : ∀ e < r.tree.elements.size, (r.tree.element e).expression = r.current →
    r.tree.ParensFit ids e

structure Balanced (r₀ : Reader) (pre : List Char) (r : Reader) : Prop where
  entities : ∃ ids, EntityCounts r₀ pre r ids
  elements : ∀ root openParens, r.entity.content = .expression root openParens →
    ∃ id ids, ElementCounts r root openParens id ids
  /-- The other expressions are complete. -/
  finished : ∀ e < r.tree.elements.size, (r.tree.element e).expression ≠ r.current →
    (r.tree.element e).openParens = 0 ∧
      r.tree.unclosed (r.tree.element e).children.toList 0 = some 0

/-- Nothing is open in the current expression, and the current element is its root node. -/
structure Settled (r : Reader) (root : ElementId) (openParens : Nat) : Prop where
  openParens : openParens = 0
  element : r.element = some root
  root : (r.tree.element root).kind = .node
  elements : ∀ e < r.tree.elements.size, (r.tree.element e).expression = r.current →
    (r.tree.element e).openParens = 0

end Reader

/-- Nothing is open in a tree, and the parentheses of each element belong together. -/
structure Tree.Closed (tree : Tree) : Prop where
  entities : ∀ id < tree.entities.size, ∀ root openParens,
    (tree.entity id).content = .expression root openParens → openParens = 0
  elements : ∀ id < tree.elements.size, (tree.element id).openParens = 0
  parens : ∀ id < tree.elements.size,
    tree.unclosed (tree.element id).children.toList 0 = some 0

namespace Reader

variable {ops : List String} {filename : Option String} {source : String} {r r' r₀ : Reader}
  {s : Nested} {pre : List Char} {c : Char} {name : Option String} {f : OpenFormula}

theorem Mirrors.isArray_current (h : r.Mirrors ops s) (hs : s.Staged ops)
    (hn : ∀ e es, s.nest ≠ .entity e es) : r.entity.content.isArray = false ∧
      (r.entity.content.isSection → ∃ root, s.nest = .done root) := by
  cases hnest : s.nest with
  | entity e es => exact absurd hnest (hn e es)
  | row e es name f =>
    rw [(h.shows_of hnest).content_row]
    exact ⟨rfl, nofun⟩
  | done root =>
    obtain ⟨d, rfl⟩ := hs.document hnest
    obtain ⟨title, members, hcontent⟩ := (h.shows_of hnest).content_done
    rw [hcontent]
    exact ⟨rfl, fun _ => ⟨_, rfl⟩⟩

theorem Mirrors.entityCounts (h : r.Mirrors ops s) (hs : s.Staged ops)
    (hb : s.nest.Braced fun d id => r₀.readIn d id pre) :
    EntityCounts r₀ pre r s.nest.path := by
  have hshows := h.shows
  have hcurrent : s.nest.current = r.current := hshows.current.symm
  refine ⟨hshows.entity_path, s.nest.getLast?_path, ?_, ?_⟩
  · rw [hshows.openArrays]
    refine (s.nest.countP_path (fun e es hsuffix => ?_) fun hn => ?_).symm
    · exact (hshows.content_at hsuffix).1
    · rw [hcurrent]
      exact (h.isArray_current hs hn).1
  · rw [hshows.openSections]
    refine (s.nest.countP_path (fun e es hsuffix => ?_) fun hn => ?_).symm
    · rw [(hshows.content_at hsuffix).2, hb.opened e es hsuffix, hb.unclosed e es hsuffix]
      cases e with
      | sect name title ms => cases title <;> rfl
      | array name items => rfl
    · rw [hcurrent]
      cases hsection : r.entity.content.isSection with
      | false =>
        rw [show (r.tree.entity r.current).content.isSection = false from hsection]
        rfl
      | true =>
        obtain ⟨root, hroot⟩ := (h.isArray_current hs hn).2 hsection
        have hclosed := hb.closed root hroot
        rw [show r.current = 0 by rw [hshows.current, hroot]; rfl, hclosed]
        simp

theorem Mirrors.exists_row (h : r.Mirrors ops s) (hs : s.Staged ops)
    (hcontent : r.entity.content.isExpression) : ∃ e es name f, s.nest = .row e es name f := by
  cases hnest : s.nest with
  | entity e es =>
    rw [(h.shows_of hnest).isExpression_entity] at hcontent
    cases hcontent
  | row e es name f => exact ⟨e, es, name, f, rfl⟩
  | done root =>
    obtain ⟨d, rfl⟩ := hs.document hnest
    obtain ⟨title, members, hsect⟩ := (h.shows_of hnest).content_done
    rw [hsect] at hcontent
    cases hcontent

theorem Mirrors.elementCounts (h : r.Mirrors ops s) (hs : s.Staged ops) {root : ElementId}
    {openParens : Nat} (hcontent : r.entity.content = .expression root openParens) :
    ∃ id ids, ElementCounts r root openParens id ids := by
  obtain ⟨e, es, name, f, hn⟩ := h.exists_row hs (by rw [hcontent]; rfl)
  have hshows := h.shows_of hn
  have hrow := hshows.content_row
  rw [hcontent] at hrow
  cases hrow
  refine ⟨_, spine (first (e :: es)) f.frames, hshows.element_eq, ?_, hshows.element_path,
    getLast?_spine .., hshows.root_kind, hshows.openSum_eq.symm,
    fun _ => hshows.parensFit (hs.part hn)⟩
  obtain ⟨children, hc⟩ := hshows.tables.element_at []
  exact (congrArg Element.expression hc).trans hshows.current.symm

theorem Mirrors.settled {s' : Nested} (h : r.Mirrors ops s) (hs : s.Staged ops)
    (h' : r'.Mirrors ops s') (hmove : Nest.Moves c r'.phase s.nest s'.nest) {root : ElementId}
    {openParens : Nat} (hcontent : r.entity.content = .expression root openParens)
    (hne : r'.current ≠ r.current) : r.Settled root openParens := by
  obtain ⟨e, es, name, f, hn⟩ := h.exists_row hs (by rw [hcontent]; rfl)
  obtain ⟨row, rfl⟩ := h.leaves h' hmove hn hne
  have hshows := h.shows_of hn
  have hrow := hshows.content_row
  rw [hcontent] at hrow
  cases hrow
  refine ⟨rfl, hshows.element_eq, hshows.root_kind, fun e he hexpression => ?_⟩
  have hmem : r.tree.element e ∈ r.tree.elements.toList := by
    simp [Tree.element, he]
  exact openSum_eq_zero.mp hshows.openSum_eq _ hmem hexpression

structure Counted (r : Reader) (c : Char) (r' : Reader) : Prop where
  ledger : (isBlank c ∧ ∀ b, r'.count b = r.count b) ∨ r.Ledger r'
  settled : ∀ root openParens, r.entity.content = .expression root openParens →
    r'.current ≠ r.current → r.Settled root openParens

theorem Mirrors.counted (h : r.Mirrors ops s) (hs : s.Staged ops) (hc : c ≠ '\r')
    (haccept : r.accept c = .ok r') : r.Counted c r' := by
  obtain ⟨s', hs', hmirrors, hmove⟩ := h.accept_cases hs haccept
  have hstaged := hs.accept hc hs'
  rcases hmove with ⟨hblank, hnest⟩ | hmove
  · refine ⟨.inl ⟨hblank, fun b => ?_⟩, fun root n _ hne => ?_⟩
    · rw [hmirrors.count hstaged, h.count hs, hnest]
    · rw [hmirrors.shows.current, h.shows.current, hnest] at hne
      exact absurd rfl hne
  · exact ⟨.inr (h.ledger hs hmirrors hstaged hmove),
      fun root n hcontent hne => h.settled hs hmirrors hmove hcontent hne⟩

end Reader

theorem Tree.closed_of_read {ops : List String} {filename : Option String} {source : String}
    {tree : Tree} (h : Tree.read source ops filename = .ok tree) : tree.Closed := by
  have hfits := Tree.wellFormed_of_read h
  obtain ⟨s, d, -, -, -, -, hholds⟩ := Tree.read_nested h
  refine ⟨fun id hid root n hcontent => ?_, fun id hid => ?_,
    fun id hid => (hfits.elements id hid).kind.unclosed 0⟩
  · have hcontentFits := (hfits.entities id hid).content
    rw [hcontent] at hcontentFits
    exact hcontentFits.2.2
  · exact Tree.openParens_of_outline hholds.2 hid

/-- In every state that a reading comes to, whether or not it succeeds, the counts say what is open;
every character changes them as it should; and in a tree that is read nothing is open. -/
theorem Reader.counts_balanced (source : String) (ops : List String) (filename : Option String) :
    (∀ pre r, pre <+: (prepare source).1 → (Reader.initial ops filename source).Reaches pre r →
      Balanced (Reader.initial ops filename source) pre r ∧
        ∀ c r', pre ++ [c] <+: (prepare source).1 → r.accept c = .ok r' → r.Counted c r') ∧
      ∀ tree, Tree.read source ops filename = .ok tree → tree.Closed := by
  refine ⟨fun pre r hpre hr => ?_, fun tree => Tree.closed_of_read⟩
  have hplain := prepare_ne source
  obtain ⟨s, hs, hmirrors, hbraced⟩ := hr.braced fun c hc => hplain c (hpre.subset hc)
  refine ⟨⟨⟨_, hmirrors.entityCounts hs hbraced⟩, fun _ _ => hmirrors.elementCounts hs, ?_⟩, ?_⟩
  · intro e he hne
    obtain ⟨hfits, hparens⟩ := hmirrors.finished hs he hne
    exact ⟨hparens, hfits.kind.unclosed 0⟩
  · intro c r' hc haccept
    have hmem : c ∈ pre ++ [c] := List.mem_append_right _ List.mem_cons_self
    exact hmirrors.counted hs (hplain c (hc.subset hmem)) haccept

/-- A text with a call in a section in an array. -/
def nestedSource : String := "#a { b = [#c { d = ((f(1, (2))) + e); }]; }"

/-- At the parenthesis after the 2 four are open. -/
theorem Reader.counts_balanced_nested : ∃ pre r r' tree,
    pre ++ [')'] <+: (prepare nestedSource).1 ∧
    (Reader.initial defaultOperators none nestedSource).Reaches pre r ∧ r.accept ')' = .ok r' ∧
    (r.openArrays = 1 ∧ r.openSections = 2 ∧ r.depth = 4 ∧ r'.phase = .parenClose) ∧
    Tree.read nestedSource defaultOperators none = .ok tree ∧
    Balanced (Reader.initial defaultOperators none nestedSource) pre r ∧ r.Counted ')' r' ∧
    tree.Closed := by
  let check (r : Reader) : Bool := r.openArrays = 1 && r.openSections = 2 && r.depth = 4 &&
    (r.accept ')').toOption.any fun r' => r'.phase = .parenClose
  obtain ⟨r, hr, hcheck⟩ : ∃ r, (Reader.initial defaultOperators none nestedSource).Reaches
      ((prepare nestedSource).1.take 28) r ∧ check r :=
    exists_reaches_of_any (by decide +kernel)
  obtain ⟨tree, hread, -⟩ :
      ∃ tree, Tree.read nestedSource defaultOperators none = .ok tree ∧ true :=
    Tree.exists_of_any (p := fun _ => true) (by decide +kernel)
  have hnext : (prepare nestedSource).1.take 28 ++ [')'] <+: (prepare nestedSource).1 := by
    decide +kernel
  simp only [check, Bool.and_eq_true, decide_eq_true_eq] at hcheck
  obtain ⟨⟨⟨harrays, hsections⟩, hdepth⟩, hclose⟩ := hcheck
  cases haccept : r.accept ')' with
  | error e =>
    rw [haccept] at hclose
    cases hclose
  | ok r' =>
    rw [haccept] at hclose
    obtain ⟨hstates, htrees⟩ := counts_balanced nestedSource defaultOperators none
    obtain ⟨hbalanced, hcounted⟩ := hstates _ r (List.take_prefix ..) hr
    exact ⟨_, r, r', tree, hnext, hr, haccept,
      ⟨harrays, hsections, hdepth, of_decide_eq_true hclose⟩, hread, hbalanced,
      hcounted ')' r' hnext haccept, htrees tree hread⟩

end Formulary

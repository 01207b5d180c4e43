import Formulary.Proofs.Reader.Sited
import Formulary.Proofs.Reader.Soundness
import Formulary.Proofs.Text.Basic
import Formulary.Proofs.Text.Fillers
import Formulary.Proofs.Tree.Arena

/-!
# Where the nodes of a tree stand

The position of a node is that of its word in the text, whatever the preparation of the text has
changed, and nodes follow one another in the tables as they do in the text.

* `Position.Points`: a position points at a word of a text.
* `Tree.EntityPoints`, `Tree.ElementPoints`: each node points at its word.
* `Tree.log_of_read`: the tables of a tree that was read make up a log.
* `Tree.read_positions`: every node points at its word.
* `Tree.read_arena`: the tables are linked into trees and ordered.
-/

namespace Formulary

/-! ## Words of a text -/

/-- A position is that of an offset at which a word stands, and its span covers the first character
of the word. -/
structure Position.Points (p : Position) (source : String) (w : List Char) : Prop where
  place : p = .ofOffset source.toList p.offset
  word : w <+: source.toList.drop p.offset
  span : ∀ c ∈ w.head?, (p.span source).Covers source p.offset c

variable {source : String} {p : Position} {k : Nat} {w : List Char}

theorem Position.points_of_prefix (hplace : p = .ofOffset source.toList p.offset)
    (hword : w <+: source.toList.drop p.offset) : p.Points source w where
  place := hplace
  word := hword
  span c hc := by
    refine Position.span_covers ?_
    obtain ⟨w', rfl⟩ := List.head?_eq_some_iff.mp hc
    obtain ⟨rest, hrest⟩ := hword
    rw [← List.head?_drop, ← hrest]
    rfl

/-- A word that is not empty is pointed at within the text. -/
theorem Position.Points.offset_lt (h : p.Points source w) (hw : w ≠ []) :
    p.offset < source.toList.length := by
  have hlength := h.word.length_le
  have hpos := List.length_pos_of_ne_nil hw
  rw [List.length_drop] at hlength
  omega

/-- A position in the prepared text is a position in the text. -/
theorem Position.ofOffset_text (hp : p = .ofOffset (prepare source).1 p.offset)
    (hle : p.offset ≤ source.toList.length) : p = .ofOffset source.toList p.offset := by
  rw [← Position.ofOffset_prepare hle]
  exact hp

/-- A word that is read stands in the text. -/
theorem Stands.points (h : Stands (prepare source).1 source.toList.length p.offset w)
    (hp : p = .ofOffset (prepare source).1 p.offset) (hblank : ∀ c ∈ w, isBlank c = false) :
    p.Points source w :=
  Position.points_of_prefix (Position.ofOffset_text hp (by have := h.le; omega))
    (prefix_of_prepare h.word hblank h.le)

/-- A character that is read stands in the text. -/
theorem points_of_getElem? {c : Char} (h : (prepare source).1[p.offset]? = some c)
    (hp : p = .ofOffset (prepare source).1 p.offset) (hlt : p.offset < source.toList.length)
    (hblank : isBlank c = false) : p.Points source [c] :=
  ((Stands.of_getElem? h).mono hlt).points hp (by simpa using hblank)

theorem Word.not_blank {kind : ElementKind} {text : List Char} (h : Word kind text w)
    (hkind : kind ≠ .number) : ∀ c ∈ w, isBlank c = false := by
  cases h with
  | verbatim _ hblank => exact hblank
  | minus => exact absurd rfl hkind

/-- A number stands in the text, but there may be more than blanks after its minus. -/
theorem Word.points {text : List Char} (h : Word .number text w)
    (hp : p = .ofOffset (prepare source).1 p.offset)
    (hstands : Stands (prepare source).1 source.toList.length p.offset w) :
    p.Points source text ∨ ∃ filler digits, text = '-' :: digits ∧ Filler filler ∧
      p.Points source ('-' :: (filler ++ digits)) := by
  cases h with
  | verbatim _ hblank => exact .inl (hstands.points hp hblank)
  | @minus gap digits hgap hne hblank =>
    obtain ⟨after, hafter⟩ := hstands.word
    have hle := hstands.le
    simp only [List.length_cons, List.length_append] at hle
    have hdrop : (prepare source).1.drop p.offset = '-' :: (gap ++ (digits ++ after)) := by
      rw [← hafter]
      simp
    obtain ⟨filler, hfiller, hword⟩ := exists_filler hdrop hgap hne hblank (by omega)
    exact .inr ⟨filler, digits, rfl, hfiller,
      Position.points_of_prefix (Position.ofOffset_text hp (by omega)) hword⟩

/-! ## Nodes -/

namespace Tree

variable {tree : Tree}

/-- An element stands where the first term under it does, at the first character of the term. -/
structure AtTerm (tree : Tree) (source : String) (id : ElementId) : Prop where
  first : ∃ c, (tree.element id).children[0]? = some c ∧
    (tree.element c).position = (tree.element id).position
  term : ∃ c, isTermStart c ∧ (tree.element id).position.Points source [c]

/-- An element points at its text, and a string at its quote; blanks and comments may stand after
the minus of a number.  The first argument of a call points at the parenthesis, a further argument
and a node at their first term. -/
def ElementPoints (tree : Tree) (source : String) (id : ElementId) : Prop :=
  let e := tree.element id
  match e.kind with
  | .symbol | .identifier | .function | .operator => e.position.Points source e.text.toList
  | .string => e.position.Points source ['"']
  | .number => e.position.Points source e.text.toList ∨
      ∃ filler digits, e.text.toList = '-' :: digits ∧ Filler filler ∧
        e.position.Points source ('-' :: (filler ++ digits))
  | .argument => ∃ call, e.parent = some call ∧
      if (tree.element call).children[0]? = some id then e.position.Points source ['(']
      else tree.AtTerm source id
  | .node => tree.AtTerm source id

/-- A section and an array point at their brackets, an expression at its first term. -/
def EntityPoints (tree : Tree) (source : String) (id : EntityId) : Prop :=
  let e := tree.entity id
  match e.content with
  | .sect _ _ => e.position.Points source ['#']
  | .array _ => e.position.Points source ['[']
  | .expression root _ =>
      e.position = (tree.element root).position ∧ tree.AtTerm source root

structure Positioned (tree : Tree) (source : String) : Prop where
  entities : ∀ id < tree.entities.size, tree.EntityPoints source id
  elements : ∀ id < tree.elements.size, tree.ElementPoints source id

/-- Nodes follow one another in the tables as they do in the text: offsets never decrease, and they
increase strictly between nodes under one parent. -/
structure Ordered (tree : Tree) : Prop where
  entities : ∀ i j, i < j → j < tree.entities.size →
    (tree.entity i).position.offset < (tree.entity j).position.offset
  elements : ∀ i j, i < j → j < tree.elements.size →
    (tree.element i).position.offset ≤ (tree.element j).position.offset
  siblings : ∀ i j, i < j → j < tree.elements.size →
    (tree.element i).parent = (tree.element j).parent →
    (tree.element i).position.offset < (tree.element j).position.offset

/-! ### Order -/

variable {cs : List Char} {n : Nat}

theorem ordered_of_log (h : Log cs n tree.entityMarks tree.elementMarks) : tree.Ordered := by
  have helements : ∀ i j, i < j → j < tree.elements.size →
      (tree.element i).position.offset < (tree.element j).position.offset ∨
        (tree.element i).position.offset = (tree.element j).position.offset ∧
          (tree.element j).parent = some i := fun i j hij hj =>
    h.ordered i j _ _ hij (getElem?_elementMarks (Nat.lt_trans hij hj))
      (getElem?_elementMarks hj)
  constructor
  · intro i j hij hj
    have hi : i < tree.entities.size := Nat.lt_trans hij hj
    have := List.pairwise_iff_getElem.mp h.entitiesOrdered i j (by simpa using hi)
      (by simpa using hj) hij
    simpa [entityMarks, entity, hi, hj, Entity.mark] using this
  · intro i j hij hj
    rcases helements i j hij hj with hlt | ⟨heq, -⟩ <;> omega
  · intro i j hij hj hparent
    rcases helements i j hij hj with hlt | ⟨-, hunder⟩
    · exact hlt
    -- an element is not under itself
    · rw [hunder] at hparent
      have hmark := h.sited i _ (getElem?_elementMarks (Nat.lt_trans hij hj))
      exact absurd (hmark.parent i hparent) (Nat.lt_irrefl i)

/-! ### Elements -/

theorem head?_of_le {is : List Nat} {i : Nat} (hordered : is.Pairwise (· < ·)) (hi : i ∈ is)
    (hle : ∀ j ∈ is, i ≤ j) : is.head? = some i := by
  cases is with
  | nil => cases hi
  | cons j is =>
    rcases List.mem_cons.mp hi with rfl | hi
    · rfl
    · have := (List.pairwise_cons.mp hordered).1 i hi
      have := hle j List.mem_cons_self
      omega

/-- An element is listed by its parent. -/
theorem Linked.mem_children {id call : ElementId} (h : tree.Linked) (hid : id < tree.elements.size)
    (hparent : (tree.element id).parent = some call) :
    id ∈ (tree.element call).children.toList := by
  have hroot : id ∉ tree.rootNodes := by
    intro hmem
    have hnone : (tree.element id).parent = none := (h.elements.root id hmem).2.1
    rw [hparent] at hnone
    cases hnone
  obtain ⟨p, hp, -, hcount, -⟩ := h.elements.inner id hid hroot
  have hp : (tree.element id).parent = some p := hp
  rw [hparent, Option.some.injEq] at hp
  subst hp
  exact List.count_pos_iff.mp (Nat.lt_of_lt_of_eq Nat.one_pos hcount.symm)

variable {ops : List String}

/-- The least of the elements under one parent is its first child. -/
theorem Linked.first_child {id call : ElementId} (h : tree.Linked) (hfits : tree.WellFormed ops)
    (hid : id < tree.elements.size) (hcall : call < tree.elements.size)
    (hparent : (tree.element id).parent = some call)
    (hle : ∀ j, (tree.element j).parent = some call → id ≤ j) :
    (tree.element call).children[0]? = some id := by
  have hnode := hfits.elements call hcall
  rw [← Array.getElem?_toList, ← List.head?_eq_getElem?]
  refine head?_of_le hnode.ordered (h.mem_children hid hparent) fun j hj => hle j ?_
  exact hnode.parent j (Array.mem_toList_iff.mp hj)

/-- The first child comes before the others. -/
theorem WellFormed.le_of_first {id j call : ElementId} (hfits : tree.WellFormed ops)
    (hcall : call < tree.elements.size) (hid : (tree.element call).children[0]? = some id)
    (hj : j ∈ (tree.element call).children.toList) : id ≤ j := by
  have hordered := (hfits.elements call hcall).ordered
  rw [← Array.getElem?_toList, ← List.head?_eq_getElem?, List.head?_eq_some_iff] at hid
  obtain ⟨ids, hids⟩ := hid
  rw [hids] at hj hordered
  rcases List.mem_cons.mp hj with rfl | hj
  · exact Nat.le_refl j
  · exact Nat.le_of_lt ((List.pairwise_cons.mp hordered).1 j hj)

/-- An argument is under a call: the root nodes of expressions are nodes. -/
theorem Linked.exists_call {id : ElementId} (h : tree.Linked) (hid : id < tree.elements.size)
    (hkind : (tree.element id).kind = .argument) :
    ∃ call, (tree.element id).parent = some call := by
  have hroot : id ∉ tree.rootNodes := by
    intro hmem
    obtain ⟨k, -, hk⟩ := List.mem_filterMap.mp hmem
    have hnode := (h.rootNodes k id hk).1
    rw [hkind] at hnode
    cases hnode
  obtain ⟨call, hcall, -⟩ := h.elements.inner id hid hroot
  exact ⟨call, hcall⟩

section Log

variable {es : List EntityMark} (hlinked : tree.Linked) (hfits : tree.WellFormed ops)
  (hlog : Log (prepare source).1 source.toList.length es tree.elementMarks)
include hlog

theorem sited_of_log {id : ElementId} (hid : id < tree.elements.size) :
    (tree.element id).mark.Sited (prepare source).1 source.toList.length tree.elementMarks id :=
  hlog.sited id _ (getElem?_elementMarks hid)

theorem parent_lt_of_log {id call : ElementId} (hcall : call < tree.elements.size)
    (hparent : (tree.element id).parent = some call) : call < id := by
  rcases Nat.lt_or_ge id tree.elements.size with hid | hid
  · exact (sited_of_log hlog hid).parent call hparent
  · exact Nat.lt_of_lt_of_le hcall hid

include hlinked hfits

/-- A mark that heads a term is an element at the term. -/
theorem atTerm_of_headed {id : ElementId} (hid : id < tree.elements.size)
    (h : Headed (prepare source).1 tree.elementMarks id (tree.element id).mark) :
    tree.AtTerm source id := by
  obtain ⟨⟨c, hc, hterm⟩, m', hm', hparent, hposition⟩ := h
  obtain ⟨hid', rfl⟩ := mark_of_getElem? hm'
  have hsited := sited_of_log hlog hid
  refine ⟨⟨id + 1, ?_, hposition⟩, c, hterm, points_of_getElem? hc hsited.position hsited.lt
    (isBlank_of_isTermStart hterm)⟩
  exact hlinked.first_child hfits hid' hid hparent fun j hj => parent_lt_of_log hlog hid hj

omit hlinked hfits in
/-- A token points at its word. -/
theorem elementPoints_of_spells {id : ElementId} (hid : id < tree.elements.size)
    (h : Spells (prepare source).1 source.toList.length (tree.element id).position.offset
      (tree.element id).kind (tree.element id).text) : tree.ElementPoints source id := by
  have hposition := (sited_of_log hlog hid).position
  rw [ElementPoints]
  cases hkind : (tree.element id).kind with
  | string =>
    rw [hkind] at h
    cases h with
    | word hword => cases hword
    | string hquote _ => exact points_of_getElem? hquote hposition (sited_of_log hlog hid).lt rfl
  | number =>
    rw [hkind] at h
    cases h with
    | word _ hw hstands => exact hw.points hposition hstands
  | symbol | identifier | function | operator =>
    rw [hkind] at h
    cases h with
    | word _ hw hstands =>
      obtain rfl := hw.eq_of_ne (by decide)
      exact hstands.points hposition (hw.not_blank (by decide))
  | argument | node =>
    rw [hkind] at h
    cases h with
    | word hword => cases hword

/-- Every element points at its word. -/
theorem elementPoints_of_log {id : ElementId} (hid : id < tree.elements.size) :
    tree.ElementPoints source id := by
  have hsited := sited_of_log hlog hid
  cases hsited.means with
  | token h => exact elementPoints_of_spells hlog hid h
  | node hkind hparent hhead =>
    have hkind : (tree.element id).kind = .node := hkind
    rw [ElementPoints, hkind]
    exact atTerm_of_headed hlinked hfits hlog hid hhead
  | argument hkind hfirst hparen =>
    have hkind : (tree.element id).kind = .argument := hkind
    obtain ⟨call, hcall⟩ := hlinked.exists_call hid hkind
    have hcallLt := Nat.lt_trans (hsited.parent call hcall) hid
    have hleast := hlinked.first_child hfits hid hcallLt hcall fun j hj =>
      Nat.le_of_not_lt fun hlt =>
        hfirst j hlt _ (getElem?_elementMarks (Nat.lt_trans hlt hid)) (hj.trans hcall.symm)
    rw [ElementPoints, hkind]
    refine ⟨call, hcall, ?_⟩
    rw [if_pos hleast]
    exact points_of_getElem? hparen hsited.position hsited.lt rfl
  | @further j m' hkind hj hm' hparent hhead =>
    have hkind : (tree.element id).kind = .argument := hkind
    obtain ⟨call, hcall⟩ := hlinked.exists_call hid hkind
    have hcallLt := Nat.lt_trans (hsited.parent call hcall) hid
    obtain ⟨hj', rfl⟩ := mark_of_getElem? hm'
    have hsibling := hlinked.mem_children hj' (hparent.trans hcall)
    rw [ElementPoints, hkind]
    refine ⟨call, hcall, ?_⟩
    rw [if_neg fun hfirst => absurd (hfits.le_of_first hcallLt hfirst hsibling)
      (Nat.not_le_of_lt hj)]
    exact atTerm_of_headed hlinked hfits hlog hid hhead

end Log

/-- Every entity points at its word. -/
theorem entityPoints_of_log (hlinked : tree.Linked) (hfits : tree.WellFormed ops)
    (hlog : Log (prepare source).1 source.toList.length tree.entityMarks tree.elementMarks)
    {id : EntityId} (hid : id < tree.entities.size) : tree.EntityPoints source id := by
  have hsited := hlog.entitiesSited _ (List.mem_of_getElem? (getElem?_entityMarks hid))
  have hmeans := hsited.means
  rw [EntityMark.Means, Entity.mark] at hmeans
  rw [EntityPoints]
  cases hcontent : (tree.entity id).content with
  | sect title members =>
    rw [hcontent] at hmeans
    exact points_of_getElem? hmeans hsited.position hsited.lt rfl
  | array items =>
    rw [hcontent] at hmeans
    exact points_of_getElem? hmeans hsited.position hsited.lt rfl
  | expression root openParens =>
    rw [hcontent] at hmeans
    obtain ⟨m, hm, hposition⟩ := hmeans
    obtain ⟨hroot, rfl⟩ := mark_of_getElem? hm
    have hkind := (hlinked.rootNodes id root (by rw [rootNode?, hcontent]; rfl)).1
    have hpoints := elementPoints_of_log hlinked hfits hlog hroot
    rw [ElementPoints, hkind] at hpoints
    exact ⟨hposition.symm, hpoints⟩

/-! ### Trees that are read -/

variable {filename : Option String}

/-- A tree that is read is that of a run over the whole text. -/
theorem exists_reaches (h : Tree.read source ops filename = .ok tree) :
    ∃ r : Reader, (Reader.initial ops filename source).Reaches (prepare source).1 r ∧
      r.phase = .final ∧ r.tree = tree := by
  rw [Tree.read_eq] at h
  rcases Reader.run_cases (prepare source).2 .start (prepare source).1 with
    ⟨r, hr, hrun⟩ | ⟨mid, c, rest, r, e, -, -, -, hrun⟩
  · rw [hrun, Reader.finish] at h
    split at h
    · next hphase => exact ⟨r, hr, hphase, Except.ok.inj h⟩
    · cases h
    · cases h
    · cases h
  · rw [hrun] at h
    cases h

/-- The tables of a tree that was read make up a log, up to the end of the text. -/
theorem log_of_read (h : Tree.read source ops filename = .ok tree) :
    Log (prepare source).1 source.toList.length tree.entityMarks tree.elementMarks := by
  obtain ⟨r, hr, hphase, rfl⟩ := exists_reaches h
  have hsited := hr.sited (List.prefix_refl _) (prepare_ne source)
  rw [Reader.Sited, hphase] at hsited
  -- the final point is no part of a word, even where it was added
  obtain ⟨m, hm, hsteady⟩ := hsited
  have hadded := length_addedPoint_le source
  rw [length_prepare] at hm
  exact hsteady.1.wait (by omega)

theorem linked_of_read (h : Tree.read source ops filename = .ok tree) : tree.Linked := by
  obtain ⟨s, d, -, -, -, -, hentities, helements⟩ := Tree.read_nested h
  exact linked_of_tables hentities helements

/-- Every node of a tree that was read points at its word in the text. -/
theorem read_positions (h : Tree.read source ops filename = .ok tree) : tree.Positioned source where
  entities _ hid :=
    entityPoints_of_log (linked_of_read h) (wellFormed_of_read h) (log_of_read h) hid
  elements _ hid :=
    elementPoints_of_log (linked_of_read h) (wellFormed_of_read h) (log_of_read h) hid

/-- A text with line breaks of two sorts, a comment after a minus and a character of two bytes. -/
def wideSource : String :=
  "#a \x7b\r\n b = f(-/* - */1.5, \"\u00e9\", (c)) + c;\r d = [1, #e\x7b\x7d]; \x7d"

theorem read_positions_wide :
    ∃ tree, Tree.read wideSource defaultOperators none = .ok tree ∧
      tree.elements.size = 14 ∧ tree.Positioned wideSource := by
  obtain ⟨tree, h, hsize⟩ :
      ∃ tree, Tree.read wideSource defaultOperators none = .ok tree ∧ tree.elements.size == 14 :=
    Tree.exists_of_any (p := fun tree => tree.elements.size == 14) (by decide +kernel)
  exact ⟨tree, h, by simpa using hsize, read_positions h⟩

/-- The tables of a tree that was read are linked into one tree of entities and one tree of elements
for each expression, and hold them in the order of the text. -/
theorem read_arena (h : Tree.read source ops filename = .ok tree) : tree.Linked ∧ tree.Ordered :=
  ⟨linked_of_read h, ordered_of_log (log_of_read h)⟩

theorem read_arena_wide :
    ∃ tree, Tree.read wideSource defaultOperators none = .ok tree ∧
      tree.entities.size = 5 ∧ tree.Linked ∧ tree.Ordered := by
  obtain ⟨tree, h, hsize⟩ :
      ∃ tree, Tree.read wideSource defaultOperators none = .ok tree ∧ tree.entities.size == 5 :=
    Tree.exists_of_any (p := fun tree => tree.entities.size == 5) (by decide +kernel)
  exact ⟨tree, h, by simpa using hsize, read_arena h⟩

end Tree

end Formulary

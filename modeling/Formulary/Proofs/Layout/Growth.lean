import Formulary.Proofs.Layout.Outline

/-!
# The growth of a tree

A tree grows by one node at the end of a table and one more child of its parent, and a node in the
middle of a table may change.

* `Tree.plainElements_addElement`, `Tree.plainEntities_addEntity`: a new node, where the table is
  given around the parent.
* `Tree.plainElements_open`, `Tree.plainElements_relabel`: the same where the table holds the
  frames of an open row.
-/

namespace Formulary

theorem modify_map {α β : Type} {f : α → α} {g : β → β} {p : α → β}
    (h : ∀ a, p (f a) = g (p a)) (l : List α) (i : Nat) :
    (l.modify i f).map p = (l.map p).modify i g := by
  induction l generalizing i with
  | nil => simp
  | cons a l ih =>
    cases i with
    | zero => simp [h]
    | succ i => simp [ih]

theorem modify_middle {α : Type} (f : α → α) (xs ys : List α) (y : α) :
    (xs ++ y :: ys).modify xs.length f = xs ++ f y :: ys := by
  induction xs with
  | nil => rfl
  | cons x xs ih => simp only [List.cons_append, List.length_cons, List.modify_succ_cons, ih]

namespace Tree

variable {tree : Tree}

/-! ## Elements -/

theorem plainElements_modifyElement {f g : Element → Element} {xs ys : List Element} {y : Element}
    (hfg : ∀ e : Element, (f e).unplaced = g e.unplaced)
    (h : tree.plainElements = xs ++ y :: ys) :
    (tree.modifyElement xs.length f).plainElements = xs ++ g y :: ys := by
  rw [plainElements, modifyElement, Array.toList_modify, modify_map hfg]
  rw [plainElements] at h
  rw [h, modify_middle]

theorem plainElements_addElement {xs ys : List Element} {y : Element}
    (h : tree.plainElements = xs ++ y :: ys) (kind : ElementKind) (text : String)
    (position : Position) :
    (tree.addElement xs.length kind text position).plainElements =
      xs ++ { y with children := y.children.push tree.elements.size } :: ys ++
        [⟨kind, text, #[], 0, some xs.length, y.expression, default⟩] := by
  have howner : (tree.element xs.length).unplaced.expression = y.expression :=
    congrArg Element.expression (element_of_eq h)
  rw [Element.unplaced] at howner
  have hpush : ({ tree with elements := tree.elements.push ⟨kind, text, #[], 0, some xs.length,
      (tree.element xs.length).expression, position⟩ } : Tree).plainElements =
      xs ++ y :: (ys ++ [⟨kind, text, #[], 0, some xs.length, y.expression, default⟩]) := by
    rw [plainElements, Array.toList_push, List.map_append, ← plainElements, h, howner,
      List.append_assoc]
    rfl
  rw [List.append_assoc, List.cons_append]
  exact plainElements_modifyElement
    (g := fun e => { e with children := e.children.push tree.elements.size }) (fun e => rfl) hpush

theorem plainElements_addExpression {name : Option String} {parent : EntityId}
    {position : Position} :
    (tree.addExpression name parent position).plainElements =
      tree.plainElements ++ [⟨.node, "", #[], 0, none, tree.entities.size, default⟩] := by
  simp [plainElements, addExpression, addEntity, Element.unplaced]

@[simp] theorem plainElements_addEntity {name : Option String} {parent : EntityId}
    {position : Position} {content : Content} :
    (tree.addEntity name parent position content).plainElements = tree.plainElements := rfl

@[simp] theorem plainElements_modifyEntity {id : EntityId} {f : Entity → Entity} :
    (tree.modifyEntity id f).plainElements = tree.plainElements := rfl

/-! ## Entities -/

theorem plainEntities_modifyEntity {f : Entity → Entity} {xs ys : List Entity} {y : Entity}
    {t : Tree} {id : EntityId} (h : t.plainEntities = xs ++ y :: ys) (hid : xs.length = id)
    (hf : ∀ e : Entity, (f e).unplaced = f e.unplaced) :
    (t.modifyEntity id f).plainEntities = xs ++ f y :: ys := by
  subst hid
  rw [plainEntities, modifyEntity, Array.toList_modify, modify_map hf]
  rw [plainEntities] at h
  rw [h, modify_middle]

theorem plainEntities_addEntity {xs ys : List Entity} {y : Entity}
    (h : tree.plainEntities = xs ++ y :: ys) (name : Option String) (position : Position)
    (content : Content) :
    (tree.addEntity name xs.length position content).plainEntities =
      xs ++ { y with content := y.content.attach tree.entities.size } :: ys ++
        [⟨name, some xs.length, default, content⟩] := by
  have hpush : ({ tree with entities := tree.entities.push ⟨name, some xs.length, position,
      content⟩ } : Tree).plainEntities =
      xs ++ y :: (ys ++ [⟨name, some xs.length, default, content⟩]) := by
    rw [plainEntities, Array.toList_push, List.map_append, ← plainEntities, h, List.append_assoc]
    rfl
  rw [List.append_assoc, List.cons_append]
  exact plainEntities_modifyEntity hpush rfl fun e => rfl

@[simp] theorem plainEntities_addElement {parent : ElementId} {kind : ElementKind} {text : String}
    {position : Position} :
    (tree.addElement parent kind text position).plainEntities = tree.plainEntities := rfl

/-! ## Frames of a row -/

variable {xs : List Element} {owner : EntityId} {first : ElementId} {f : Frame ElementLabel}
  {fs : List (Frame ElementLabel)}

theorem length_outerElements (hx : xs.length = first) (fs : List (Frame ElementLabel)) :
    (xs ++ (Frame.outer first fs).map (Cell.element owner)).length = Frame.next first fs := by
  rw [List.length_append, List.length_map, hx, Frame.length_outer]

theorem cells_split (inner : List Nat) :
    xs ++ (Frame.outer first fs ++ Frame.block first f fs inner).map (Cell.element owner) =
      xs ++ (Frame.outer first fs).map (Cell.element owner) ++
        Cell.element owner ⟨f.label, Rose.places (Frame.next first fs + 1) f.closed ++ inner,
            Frame.top? first fs⟩ ::
          (Rose.rowCells (Frame.next first fs) (Frame.next first fs + 1) f.closed).map
            (Cell.element owner) := by
  rw [List.map_append, Frame.block, List.map_cons, List.append_assoc]

theorem plainElements_open (hx : xs.length = first)
    (h : tree.plainElements = xs ++ (Frame.cells first (f :: fs)).map (Cell.element owner))
    (kind : ElementKind) (text : String) (position : Position) :
    (tree.addElement (Frame.next first fs) kind text position).plainElements =
      xs ++ (Frame.cells first (⟨⟨kind, text, 0⟩, []⟩ :: f :: fs)).map (Cell.element owner) := by
  have hsize : tree.elements.size = Frame.next first (f :: fs) := by
    rw [← length_plainElements, h, List.length_append, List.length_map, hx, Frame.length_cells]
  rw [Frame.cells, cells_split] at h
  have hadd := plainElements_addElement h kind text position
  rw [length_outerElements hx fs, hsize] at hadd
  rw [hadd, Frame.cells_open, List.map_append, ← List.append_assoc, cells_split]
  simp [Cell.element]

theorem plainElements_relabel {g : Nat → Nat} (hx : xs.length = first)
    (h : tree.plainElements = xs ++ (Frame.cells first (f :: fs)).map (Cell.element owner)) :
    (tree.modifyElement (Frame.next first fs) fun e =>
        { e with openParens := g e.openParens }).plainElements =
      xs ++ (Frame.cells first
        (⟨{ f.label with openParens := g f.label.openParens }, f.closed⟩ :: fs)).map
          (Cell.element owner) := by
  rw [Frame.cells, cells_split] at h
  have hmodify := plainElements_modifyElement
    (f := fun e => { e with openParens := g e.openParens })
    (g := fun e => { e with openParens := g e.openParens }) (fun e => rfl) h
  rw [length_outerElements hx fs] at hmodify
  rw [hmodify, Frame.cells, cells_split]
  rfl

end Tree

end Formulary

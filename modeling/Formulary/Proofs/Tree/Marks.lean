import Formulary.Proofs.Layout.Growth

/-!
# Marks

What a node of a tree says of the text, apart from the nodes below it: what it is and where it
stands.  The marks of a tree are added at the end and never change.

* `Tree.entityMarks`, `Tree.elementMarks`: the marks of both tables.
* `Tree.entityMarks_addEntity`, `Tree.elementMarks_addElement`, …: a new node is one more mark.
-/

namespace Formulary

inductive EntitySort where
  | sect
  | array
  | expression (root : ElementId)

def Content.sort : Content → EntitySort
  | .sect _ _ => .sect
  | .array _ => .array
  | .expression root _ => .expression root

structure EntityMark where
  sort : EntitySort
  position : Position

structure ElementMark where
  kind : ElementKind
  text : String
  parent : Option ElementId
  position : Position

def Entity.mark (e : Entity) : EntityMark := ⟨e.content.sort, e.position⟩

def Element.mark (e : Element) : ElementMark := ⟨e.kind, e.text, e.parent, e.position⟩

@[simp] theorem Content.sort_attach (child : EntityId) (content : Content) :
    (content.attach child).sort = content.sort := by
  cases content <;> rfl

/-- A change that keeps what is read off an entry. -/
theorem map_modify_of_eq {α β : Type} {f : α → α} {p : α → β} (hf : ∀ a, p (f a) = p a)
    (table : Array α) (i : Nat) : (table.modify i f).toList.map p = table.toList.map p := by
  rw [Array.toList_modify, modify_map (g := fun b => b) hf]
  exact List.modify_id ..

namespace Tree

variable {tree : Tree}

def entityMarks (tree : Tree) : List EntityMark := tree.entities.toList.map Entity.mark

def elementMarks (tree : Tree) : List ElementMark := tree.elements.toList.map Element.mark

@[simp] theorem length_entityMarks : tree.entityMarks.length = tree.entities.size := by
  simp [entityMarks]

@[simp] theorem length_elementMarks : tree.elementMarks.length = tree.elements.size := by
  simp [elementMarks]

theorem getElem?_entityMarks {id : EntityId} (h : id < tree.entities.size) :
    tree.entityMarks[id]? = some (tree.entity id).mark := by
  simp [entityMarks, entity, h]

theorem getElem?_elementMarks {id : ElementId} (h : id < tree.elements.size) :
    tree.elementMarks[id]? = some (tree.element id).mark := by
  simp [elementMarks, element, h]

theorem mark_of_getElem? {id : ElementId} {m : ElementMark} (h : tree.elementMarks[id]? = some m) :
    id < tree.elements.size ∧ m = (tree.element id).mark := by
  have hid : id < tree.elements.size := by
    simpa using (List.getElem?_eq_some_iff.mp h).1
  exact ⟨hid, Option.some.inj (h.symm.trans (getElem?_elementMarks hid))⟩

/-! ## Growth -/

theorem elementMarks_modifyElement {id : ElementId} {f : Element → Element}
    (hf : ∀ e : Element, (f e).mark = e.mark) :
    (tree.modifyElement id f).elementMarks = tree.elementMarks := by
  rw [elementMarks, modifyElement, map_modify_of_eq hf, elementMarks]

theorem entityMarks_modifyEntity {id : EntityId} {f : Entity → Entity}
    (hf : ∀ e : Entity, (f e).mark = e.mark) :
    (tree.modifyEntity id f).entityMarks = tree.entityMarks := by
  rw [entityMarks, modifyEntity, map_modify_of_eq hf, entityMarks]

@[simp] theorem entityMarks_modifyElement {id : ElementId} {f : Element → Element} :
    (tree.modifyElement id f).entityMarks = tree.entityMarks := rfl

@[simp] theorem elementMarks_addElement (parent : ElementId) (kind : ElementKind) (text : String)
    (position : Position) : (tree.addElement parent kind text position).elementMarks =
      tree.elementMarks ++ [⟨kind, text, some parent, position⟩] := by
  rw [addElement, elementMarks, map_modify_of_eq]
  · simp [elementMarks, Element.mark]
  · exact fun _ => rfl

@[simp] theorem entityMarks_addElement (parent : ElementId) (kind : ElementKind) (text : String)
    (position : Position) :
    (tree.addElement parent kind text position).entityMarks = tree.entityMarks := rfl

@[simp] theorem entityMarks_addEntity (name : Option String) (parent : EntityId)
    (position : Position) (content : Content) :
    (tree.addEntity name parent position content).entityMarks =
      tree.entityMarks ++ [⟨content.sort, position⟩] := by
  rw [addEntity, entityMarks, map_modify_of_eq]
  · simp [entityMarks, Entity.mark]
  · simp [Entity.mark]

@[simp] theorem elementMarks_addEntity (name : Option String) (parent : EntityId)
    (position : Position) (content : Content) :
    (tree.addEntity name parent position content).elementMarks = tree.elementMarks := rfl

@[simp] theorem entityMarks_addExpression (name : Option String) (parent : EntityId)
    (position : Position) : (tree.addExpression name parent position).entityMarks =
      tree.entityMarks ++ [⟨.expression tree.elements.size, position⟩] :=
  entityMarks_addEntity ..

@[simp] theorem elementMarks_addExpression (name : Option String) (parent : EntityId)
    (position : Position) : (tree.addExpression name parent position).elementMarks =
      tree.elementMarks ++ [⟨.node, "", none, position⟩] := by
  simp [addExpression, elementMarks, addEntity, Element.mark]

/-! ## Strings -/

def strings (tree : Tree) : List Position :=
  (tree.elementMarks.filter fun m => m.kind == .string).map ElementMark.position

theorem strings_of_eq {tree' : Tree} (h : tree'.elementMarks = tree.elementMarks) :
    tree'.strings = tree.strings := by
  rw [strings, h, strings]

theorem strings_addElement {kind : ElementKind} (hkind : kind ≠ .string) (parent : ElementId)
    (text : String) (position : Position) :
    (tree.addElement parent kind text position).strings = tree.strings := by
  simp [strings, hkind]

theorem strings_addString (parent : ElementId) (text : String) (position : Position) :
    (tree.addElement parent .string text position).strings = tree.strings ++ [position] := by
  simp [strings]

theorem strings_addExpression (name : Option String) (parent : EntityId) (position : Position) :
    (tree.addExpression name parent position).strings = tree.strings := by
  simp [strings]

end Tree

end Formulary

import Formulary.Proofs.Reader.Runs
import Formulary.Proofs.Text.Endings

/-!
# The same reading at other offsets

No step looks at an offset or at the text as a whole.  A reading whose characters stand elsewhere in
another text goes on in the same way, and its tree is the same at the other offsets.

* `Relocation`: another text, and where the characters are found in it.
* `Relocation.step`, `Relocation.accept`: one character, read at its other offset.
* `Relocation.accept_feed`: a line feed after a blank that was put before it.
-/

namespace Formulary

/-- Another text, and where its offsets are the offsets of the text. -/
structure Relocation where
  source : String
  offset : Nat → Nat
  offset_zero : offset 0 = 0

namespace Relocation

/-- The position with its offset moved, on the same line and column. -/
def position (R : Relocation) (p : Position) : Position := { p with offset := R.offset p.offset }

def entity (R : Relocation) (e : Entity) : Entity := { e with position := R.position e.position }

def element (R : Relocation) (e : Element) : Element := { e with position := R.position e.position }

def tree (R : Relocation) (t : Tree) : Tree :=
  { t with
    source := R.source
    entities := t.entities.map R.entity
    elements := t.elements.map R.element }

def error (R : Relocation) (e : ParseError) : ParseError :=
  { e with position := R.position e.position }

def reader (R : Relocation) (r : Reader) : Reader :=
  { r with
    tree := R.tree r.tree
    cursor := R.position r.cursor
    tokenStart := R.position r.tokenStart }

def result {α : Type} (R : Relocation) (f : α → α) : Except ParseError α → Except ParseError α
  | .ok a => .ok (f a)
  | .error e => .error (R.error e)

variable (R : Relocation) {r : Reader} {c : Char}

/-! ## Tables -/

theorem modify_map {α β : Type} {f : α → α} {g : β → β} {k : α → β} (h : ∀ a, g (k a) = k (f a))
    (xs : Array α) (i : Nat) : (xs.map k).modify i g = (xs.modify i f).map k := by
  refine Array.ext_getElem? fun j => ?_
  rw [Array.getElem?_modify, Array.getElem?_map, Array.getElem?_map, Array.getElem?_modify]
  by_cases hij : i = j
  · rw [if_pos hij, if_pos hij, Option.map_map, Option.map_map]
    exact congrArg (Option.map · xs[j]?) (funext h)
  · rw [if_neg hij, if_neg hij]

theorem getD_map {α : Type} [Inhabited α] {f : α → α} (h : f default = default) (xs : Array α)
    (i : Nat) : (xs.map f).getD i default = f (xs.getD i default) := by
  rw [Array.getD_eq_getD_getElem?, Array.getD_eq_getD_getElem?, Array.getElem?_map]
  cases xs[i]? with
  | none => exact h.symm
  | some a => rfl

theorem position_zero (line column : Nat) : R.position ⟨0, line, column⟩ = ⟨0, line, column⟩ := by
  rw [position, R.offset_zero]

@[simp]
theorem entity_tree (t : Tree) (id : EntityId) : (R.tree t).entity id = R.entity (t.entity id) :=
  getD_map (congrArg (fun p => { (default : Entity) with position := p }) (R.position_zero 0 0))
    t.entities id

@[simp]
theorem element_tree (t : Tree) (id : ElementId) :
    (R.tree t).element id = R.element (t.element id) :=
  getD_map (congrArg (fun p => { (default : Element) with position := p }) (R.position_zero 0 0))
    t.elements id

theorem modifyEntity_tree {f : Entity → Entity} (h : ∀ e, f (R.entity e) = R.entity (f e))
    (t : Tree) (id : EntityId) : (R.tree t).modifyEntity id f = R.tree (t.modifyEntity id f) := by
  rw [Tree.modifyEntity, Tree.modifyEntity, tree, tree, modify_map h]

theorem modifyElement_tree {f : Element → Element} (h : ∀ e, f (R.element e) = R.element (f e))
    (t : Tree) (id : ElementId) :
    (R.tree t).modifyElement id f = R.tree (t.modifyElement id f) := by
  rw [Tree.modifyElement, Tree.modifyElement, tree, tree, modify_map h]

@[simp]
theorem entities_size_tree (t : Tree) : (R.tree t).entities.size = t.entities.size :=
  Array.size_map

@[simp]
theorem elements_size_tree (t : Tree) : (R.tree t).elements.size = t.elements.size :=
  Array.size_map

theorem pushEntity_tree (t : Tree) (e : Entity) :
    { R.tree t with entities := (R.tree t).entities.push (R.entity e) } =
      R.tree { t with entities := t.entities.push e } := by
  simp only [tree, Array.map_push]

theorem pushElement_tree (t : Tree) (e : Element) :
    { R.tree t with elements := (R.tree t).elements.push (R.element e) } =
      R.tree { t with elements := t.elements.push e } := by
  simp only [tree, Array.map_push]

@[simp]
theorem addEntity_tree (t : Tree) (name : Option String) (parent : EntityId) (p : Position)
    (content : Content) : (R.tree t).addEntity name parent (R.position p) content =
      R.tree (t.addEntity name parent p content) := by
  have hpush := R.pushEntity_tree t ⟨name, some parent, p, content⟩
  have hattach := R.modifyEntity_tree
    (f := fun e => { e with content := e.content.attach t.entities.size }) (fun _ => rfl)
    { t with entities := t.entities.push ⟨name, some parent, p, content⟩ } parent
  rw [← hpush] at hattach
  rw [Tree.addEntity, entities_size_tree]
  exact hattach

@[simp]
theorem addElement_tree (t : Tree) (parent : ElementId) (kind : ElementKind) (text : String)
    (p : Position) : (R.tree t).addElement parent kind text (R.position p) =
      R.tree (t.addElement parent kind text p) := by
  have hpush := R.pushElement_tree t
    ⟨kind, text, #[], 0, some parent, (t.element parent).expression, p⟩
  have hattach := R.modifyElement_tree
    (f := fun e => { e with children := e.children.push t.elements.size }) (fun _ => rfl)
    { t with elements := (t.elements.push
      ⟨kind, text, #[], 0, some parent, (t.element parent).expression, p⟩) } parent
  rw [← hpush] at hattach
  rw [Tree.addElement, elements_size_tree, element_tree]
  exact hattach

@[simp]
theorem addExpression_tree (t : Tree) (name : Option String) (parent : EntityId) (p : Position) :
    (R.tree t).addExpression name parent (R.position p) =
      R.tree (t.addExpression name parent p) := by
  have hpush := R.pushElement_tree t ⟨.node, "", #[], 0, none, t.entities.size, p⟩
  rw [Tree.addExpression, Tree.addExpression, ← addEntity_tree, ← hpush, entities_size_tree,
    elements_size_tree]
  rfl

/-! ## Elementary changes -/

theorem tree_reader : (R.reader r).tree = R.tree r.tree := rfl

@[simp]
theorem reader_element : (R.reader r).element = r.element := rfl

@[simp]
theorem reader_phase : (R.reader r).phase = r.phase := rfl

@[simp]
theorem addElement_reader (kind : ElementKind) (text : String) (p : Position) :
    (R.reader r).addElement kind text (R.position p) = R.reader (r.addElement kind text p) := by
  cases h : r.element with
  | none => simp only [Reader.addElement, reader_element, h]
  | some parent => simp [Reader.addElement, h, reader]

@[simp]
theorem flush_reader (kind : ElementKind) : (R.reader r).flush kind = R.reader (r.flush kind) := by
  have hadd := R.addElement_reader (r := r) kind r.token r.tokenStart
  exact congrArg (fun r => { r with token := "" }) hadd

@[simp]
theorem enter_reader (p : Phase) : (R.reader r).enter p = R.reader (r.enter p) := rfl

@[simp]
theorem beginToken_reader : (R.reader r).beginToken c = R.reader (r.beginToken c) := rfl

@[simp]
theorem extendToken_reader : (R.reader r).extendToken c = R.reader (r.extendToken c) := rfl

@[simp]
theorem entity_reader : (R.reader r).entity = R.entity r.entity := R.entity_tree _ _

@[simp]
theorem leave_reader : (R.reader r).leave = R.reader r.leave := by
  have hparent : (R.reader r).entity.parent = r.entity.parent := by
    rw [entity_reader]
    rfl
  rw [Reader.leave, Reader.leave, hparent]
  split <;> rfl

@[simp]
theorem openEntity_reader (content : Content) :
    (R.reader r).openEntity content = R.reader (r.openEntity content) := by
  simp [Reader.openEntity, reader]

@[simp]
theorem openExpression_reader : (R.reader r).openExpression = R.reader r.openExpression := by
  simp [Reader.openExpression, reader]

@[simp]
theorem openArray_reader : (R.reader r).openArray = R.reader r.openArray := by
  simp only [Reader.openArray, openEntity_reader]
  rfl

@[simp]
theorem closeArray_reader : (R.reader r).closeArray = R.reader r.closeArray := by
  simp only [Reader.closeArray, leave_reader]
  rfl

@[simp]
theorem closeSection_reader : (R.reader r).closeSection = R.reader r.closeSection := by
  simp only [Reader.closeSection, leave_reader]
  rfl

@[simp]
theorem openSection_reader : (R.reader r).openSection = R.reader r.openSection := by
  simp only [Reader.openSection, reader]
  rw [modifyEntity_tree]
  intro e
  cases h : e.content <;> simp [entity, h]

@[simp]
theorem adjustParens_reader (id : ElementId) (f : Nat → Nat) :
    (R.reader r).adjustParens id f = R.reader (r.adjustParens id f) := by
  simp only [Reader.adjustParens, reader]
  rw [modifyElement_tree, modifyEntity_tree]
  · intro e
    cases h : e.content <;> simp [entity, h]
  · exact fun _ => rfl

@[simp]
theorem openParen_reader : (R.reader r).openParen = R.reader r.openParen := by
  cases h : r.element with
  | none => simp only [Reader.openParen, reader_element, h]
  | some id =>
    simp only [Reader.openParen, reader_element, h, adjustParens_reader, ← addElement_reader]
    rfl

@[simp]
theorem closeParen_reader : (R.reader r).closeParen = R.reader r.closeParen := by
  cases h : r.element with
  | none => simp only [Reader.closeParen, reader_element, h]
  | some id =>
    simp only [Reader.closeParen, reader_element, h, ← adjustParens_reader, ← addElement_reader]
    rfl

@[simp]
theorem openCall_reader : (R.reader r).openCall = R.reader r.openCall := by
  cases h : r.element with
  | none => simp only [Reader.openCall, reader_element, h]
  | some id =>
    simp only [Reader.openCall, reader_element, h, adjustParens_reader, flush_reader]
    simp [reader]

theorem elementParent_reader (id : ElementId) :
    ((R.reader r).tree.element id).parent = (r.tree.element id).parent := by
  rw [tree_reader, element_tree]
  rfl

@[simp]
theorem nextArgument_reader : (R.reader r).nextArgument = R.reader r.nextArgument := by
  have hcall : ((R.reader r).element.bind fun id => ((R.reader r).tree.element id).parent) =
      r.element.bind fun id => (r.tree.element id).parent :=
    congrArg r.element.bind (funext fun _ => R.elementParent_reader _)
  rw [Reader.nextArgument, Reader.nextArgument, hcall]
  cases r.element.bind fun id => (r.tree.element id).parent with
  | none => rfl
  | some call => simp [reader]

@[simp]
theorem closeCall_reader : (R.reader r).closeCall = R.reader r.closeCall := by
  have hparent : (fun id => ((R.reader r).tree.element id).parent) =
      fun id => (r.tree.element id).parent := funext fun _ => R.elementParent_reader _
  rw [Reader.closeCall, Reader.closeCall, hparent, reader_element]
  cases (r.element.bind fun id => (r.tree.element id).parent).bind
      fun id => (r.tree.element id).parent with
  | none => rfl
  | some outer => exact R.adjustParens_reader (r := { r with element := some outer }) outer _

/-! ## Steps -/

@[simp]
theorem flushOperand_reader : (R.reader r).flushOperand = R.reader r.flushOperand := by
  cases h : r.phase <;> simp [Reader.flushOperand, h]

/-- What a step looks at besides the tables. -/
@[simp]
theorem content_entity (e : Entity) : (R.entity e).content = e.content := rfl

@[simp]
theorem result_ok {α : Type} (f : α → α) (a : α) : R.result f (.ok a) = .ok (f a) := rfl

theorem result_ite {α : Type} {f : α → α} {p : Prop} [Decidable p] {x y x' y' : Except ParseError α}
    (hx : p → x' = R.result f x) (hy : ¬ p → y' = R.result f y) :
    (if p then x' else y') = R.result f (if p then x else y) := by
  by_cases h : p
  · rw [if_pos h, if_pos h, hx h]
  · rw [if_neg h, if_neg h, hy h]

@[simp]
theorem reject_reader : (R.reader r).reject c = R.result R.reader (r.reject c) := rfl

theorem endsExpression_reader : (R.reader r).endsExpression c = r.endsExpression c := by
  have hparent : ∀ p, ((R.reader r).tree.entity p).content = (r.tree.entity p).content := by
    intro p
    rw [tree_reader, entity_tree]
    rfl
  simp only [Reader.endsExpression, entity_reader, content_entity, hparent]
  rfl

@[simp]
theorem leaveExpression_reader :
    (R.reader r).leaveExpression c = R.reader (r.leaveExpression c) := by
  rw [Reader.leaveExpression, Reader.leaveExpression, endsExpression_reader, reader_phase,
    leave_reader]
  split <;> rfl

theorem inArgument_reader : (R.reader r).inArgument = r.inArgument := by
  simp only [Reader.inArgument, tree_reader, element_tree, reader_element]
  rfl

theorem elementParens_reader : (R.reader r).elementParens = r.elementParens := by
  simp only [Reader.elementParens, tree_reader, element_tree, reader_element]
  rfl

@[simp]
theorem separate_reader : (R.reader r).separate c = R.result R.reader (r.separate c) := by
  rw [Reader.separate, Reader.separate, entity_reader, content_entity]
  cases r.entity.content with
  | sect title members => exact R.result_ite (fun _ => rfl) fun _ => rfl
  | array items =>
    refine R.result_ite (fun _ => rfl) fun _ => R.result_ite (fun _ => ?_) fun _ => rfl
    rw [closeArray_reader]
    rfl
  | expression root openParens =>
    simp only [inArgument_reader, elementParens_reader]
    refine R.result_ite (fun _ => rfl) fun _ => R.result_ite (fun _ => ?_) fun _ =>
      R.result_ite (fun _ => ?_) fun _ => rfl
    · rw [closeParen_reader]
      rfl
    · rw [closeCall_reader]
      rfl

@[simp]
theorem afterValue_reader : (R.reader r).afterValue c = R.result R.reader (r.afterValue c) := by
  refine R.result_ite (fun _ => ?_) fun _ => rfl
  rw [flushOperand_reader, leaveExpression_reader, separate_reader]

@[simp]
theorem afterTerm_reader : (R.reader r).afterTerm c = R.result R.reader (r.afterTerm c) :=
  R.result_ite (fun _ => rfl) fun _ => R.afterValue_reader

@[simp]
theorem afterToken_reader (kind : ElementKind) :
    (R.reader r).afterToken kind c = R.result R.reader (r.afterToken kind c) := by
  refine R.result_ite (fun _ => ?_) fun _ => R.afterValue_reader
  rw [flush_reader]
  rfl

theorem flushOperator_reader :
    (R.reader r).flushOperator c = R.result R.reader (r.flushOperator c) := by
  refine R.result_ite (fun _ => ?_) fun _ => rfl
  rw [flush_reader]
  rfl

/-- A term outside every expression opens one. -/
theorem openExpression_ite :
    (if (R.reader r).entity.content.isExpression then R.reader r
      else (R.reader r).openExpression) =
      R.reader (if r.entity.content.isExpression then r else r.openExpression) := by
  rw [entity_reader, content_entity, openExpression_reader]
  split <;> rfl

theorem placeTerm_reader : (R.reader r).placeTerm c = R.result R.reader (r.placeTerm c) := by
  simp only [Reader.placeTerm, reader_phase, openExpression_ite, nextArgument_reader]
  split
  · exact R.flushOperator_reader
  · split <;> rfl

theorem beginTerm_reader : (R.reader r).beginTerm c = R.result R.reader (r.beginTerm c) := by
  refine R.result_ite (fun _ => ?_) fun _ => R.result_ite (fun _ => rfl) fun _ =>
    R.result_ite (fun _ => rfl) fun _ => R.result_ite (fun _ => rfl) fun _ =>
      R.result_ite (fun _ => rfl) fun _ => rfl
  rw [openParen_reader]
  rfl

@[simp]
theorem startTerm_reader : (R.reader r).startTerm c = R.result R.reader (r.startTerm c) := by
  refine R.result_ite (fun _ => ?_) fun _ => rfl
  rw [placeTerm_reader]
  cases r.placeTerm c with
  | ok r' => exact R.beginTerm_reader
  | error e => rfl

@[simp]
theorem startValue_reader : (R.reader r).startValue c = R.result R.reader (r.startValue c) := by
  refine R.result_ite (fun _ => ?_) fun _ => R.result_ite (fun _ => ?_) fun _ =>
    R.startTerm_reader
  · rw [openArray_reader]
    rfl
  · rw [openEntity_reader]
    rfl

@[simp]
theorem startMember_reader : (R.reader r).startMember c = R.result R.reader (r.startMember c) := by
  refine R.result_ite (fun _ => ?_) fun _ => R.result_ite (fun _ => rfl) fun _ => rfl
  rw [closeSection_reader]
  rfl

@[simp]
theorem afterSection_reader :
    (R.reader r).afterSection c = R.result R.reader (r.afterSection c) :=
  R.result_ite (fun _ => R.result_ite (fun _ => rfl) fun _ => rfl) fun _ => R.afterValue_reader

theorem unescape_reader : (R.reader r).unescape c = R.result R.reader (r.unescape c) :=
  R.result_ite (fun _ => rfl) fun _ => R.result_ite (fun _ => rfl) fun _ => rfl

/-- A step does the same at other offsets. -/
theorem step_reader : (R.reader r).step c = R.result R.reader (r.step c) := by
  rw [Reader.step, Reader.step, reader_phase]
  cases r.phase with
  | start =>
    refine R.result_ite (fun _ => ?_) fun _ => rfl
    have htree : (R.tree r.tree).modifyEntity Tree.root
        (fun e => { e with position := R.position r.cursor }) =
        R.tree (r.tree.modifyEntity Tree.root fun e => { e with position := r.cursor }) := by
      rw [Tree.modifyEntity, Tree.modifyEntity, tree, tree, modify_map]
      exact fun _ => rfl
    exact congrArg (fun t => Except.ok { R.reader r with tree := t, phase := .sectionMark }) htree
  | sectionMark => exact R.result_ite (fun _ => rfl) fun _ => rfl
  | sectionTitle =>
    refine R.result_ite (fun _ => rfl) fun _ => R.result_ite (fun _ => ?_) fun _ => rfl
    rw [openSection_reader]
    rfl
  | sectionOpen | memberEnd => exact R.startMember_reader
  | sectionClose => exact R.afterSection_reader
  | memberName =>
    exact R.result_ite (fun _ => rfl) fun _ => R.result_ite (fun _ => rfl) fun _ => rfl
  | memberEquals | arrayComma => exact R.startValue_reader
  | arrayOpen =>
    refine R.result_ite (fun _ => ?_) fun _ => R.startValue_reader
    rw [closeArray_reader]
    rfl
  | arrayClose => exact R.afterValue_reader
  | parenOpen | callComma => exact R.startTerm_reader
  | parenClose | stringEnd => exact R.afterTerm_reader
  | string =>
    refine R.result_ite (fun _ => rfl) fun _ => R.result_ite (fun _ => ?_) fun _ => rfl
    rw [flush_reader]
    rfl
  | stringEscape => exact R.unescape_reader
  | minus => exact R.result_ite (fun _ => rfl) fun _ => rfl
  | number =>
    exact R.result_ite (fun _ => rfl) fun _ => R.result_ite (fun _ => rfl) fun _ =>
      R.afterToken_reader _
  | numberPoint => exact R.result_ite (fun _ => rfl) fun _ => rfl
  | numberFraction => exact R.result_ite (fun _ => rfl) fun _ => R.afterToken_reader _
  | operator => exact R.result_ite (fun _ => rfl) fun _ => R.startTerm_reader
  | identifier =>
    refine R.result_ite (fun _ => rfl) fun _ => R.result_ite (fun _ => ?_) fun _ =>
      R.afterToken_reader _
    rw [openCall_reader]
    rfl
  | callOpen => exact R.result_ite (fun _ => R.afterValue_reader) fun _ => R.startTerm_reader
  | final => rfl

/-! ## Characters -/

@[simp]
theorem advance_reader : (R.reader r).advance c = R.reader (r.advance c) := by
  by_cases hc : c = '\n' <;> simp [Reader.advance, hc, reader, position]

/-- The cursor goes on where the next offset follows in the other text too. -/
theorem pass_reader (h : R.offset (r.cursor.offset + 1) = R.offset r.cursor.offset + 1) :
    (R.reader r).pass = R.reader r.pass := by
  simp [Reader.pass, reader, position, h]

theorem offset_advance : (r.advance c).cursor.offset = r.cursor.offset := by
  rw [Reader.advance]
  split <;> rfl

theorem offset_accept {r' : Reader} (h : r.accept c = .ok r') :
    r'.cursor.offset = r.cursor.offset + 1 := by
  rcases Reader.accept_ok h with ⟨-, -, rfl⟩ | ⟨r'', -, hstep, rfl⟩
  · exact congrArg (· + 1) offset_advance
  · have hcursor := (r.advance c).cursor_step (c := c)
    rw [hstep] at hcursor
    have hcursor : r''.cursor = (r.advance c).cursor := hcursor
    exact congrArg (· + 1) ((congrArg Position.offset hcursor).trans offset_advance)

/-- A character is read in the same way. -/
theorem accept_reader (h : R.offset (r.cursor.offset + 1) = R.offset r.cursor.offset + 1) :
    (R.reader r).accept c = R.result R.reader (r.accept c) := by
  have hpass : ∀ r' : Reader, r'.cursor = (r.advance c).cursor → ∀ b : Bool,
      ({ R.reader r' with afterBlank := b } : Reader).pass =
        R.reader ({ r' with afterBlank := b } : Reader).pass := by
    intro r' hr' b
    refine R.pass_reader (r := { r' with afterBlank := b }) ?_
    show R.offset (r'.cursor.offset + 1) = R.offset r'.cursor.offset + 1
    rw [hr', offset_advance]
    exact h
  rw [Reader.accept, Reader.accept, advance_reader, step_reader]
  refine R.result_ite (fun _ => congrArg Except.ok (hpass _ rfl true)) fun _ => ?_
  have hcursor := (r.advance c).cursor_step (c := c)
  cases hstep : (r.advance c).step c with
  | ok r' =>
    rw [hstep] at hcursor
    exact congrArg Except.ok (hpass r' hcursor false)
  | error e => rfl

/-- A line feed that is skipped leaves the same state after a blank before it. -/
theorem accept_feed (hstring : r.phase.inString = false)
    (h : R.offset (r.cursor.offset + 1) = R.offset r.cursor.offset + 2) :
    ∃ r₁ r₂, r.accept '\n' = .ok r₁ ∧ (R.reader r).accept ' ' = .ok r₂ ∧
      r₂.accept '\n' = .ok (R.reader r₁) := by
  have hspace : isBlank ' ' := by decide
  have hfeed : isBlank '\n' := by decide
  refine ⟨_, _, Reader.accept_blank hstring hfeed, Reader.accept_blank hstring hspace, ?_⟩
  refine (Reader.accept_blank
    (r := ({ (R.reader r).advance ' ' with afterBlank := true } : Reader).pass) hstring
    hfeed).trans ?_
  simp [Reader.advance, Reader.pass, reader, position, h]

end Relocation

/-! ## Runs -/

namespace Reader

variable {r : Reader} {c : Char} {cs : List Char}

/-- No line feed is read inside a string. -/
def Unbroken (r₀ : Reader) (cs : List Char) : Prop :=
  ∀ pre r, pre ++ ['\n'] <+: cs → r₀.Reaches pre r → r.phase.inString = false

def unbroken : Reader → List Char → Bool
  | _, [] => true
  | r, c :: cs => !(c = '\n' && r.phase.inString) && match r.accept c with
    | .ok r' => unbroken r' cs
    | .error _ => true

theorem unbroken_cons : r.Unbroken (c :: cs) ↔
    (c = '\n' → r.phase.inString = false) ∧ ∀ r', r.accept c = .ok r' → r'.Unbroken cs := by
  constructor
  · intro h
    refine ⟨fun hc => h [] r (by simp [hc]) .start, fun r' hr' pre r'' hpre hr'' => ?_⟩
    exact h (c :: pre) r'' (by simpa using hpre) (reaches_cons.mpr ⟨r', hr', hr''⟩)
  · rintro ⟨hfirst, hrest⟩ pre r' hpre hr'
    cases pre with
    | nil =>
      rw [reaches_iff_foldlM] at hr'
      cases hr'
      rw [List.nil_append, List.cons_prefix_cons] at hpre
      exact hfirst hpre.1.symm
    | cons d pre =>
      rw [List.cons_append, List.cons_prefix_cons] at hpre
      obtain ⟨rfl, hpre⟩ := hpre
      obtain ⟨r₁, hr₁, hreach⟩ := reaches_cons.mp hr'
      exact hrest r₁ hr₁ pre r' hpre hreach

theorem unbroken_iff : r.unbroken cs ↔ r.Unbroken cs := by
  induction cs generalizing r with
  | nil => simp [unbroken, Unbroken]
  | cons c cs ih =>
    rw [unbroken_cons, unbroken, Bool.and_eq_true]
    refine and_congr (by simp [imp_iff_not_or]) ?_
    cases hr : r.accept c with
    | error e => simp
    | ok r' => simp [ih]

instance (r : Reader) (cs : List Char) : Decidable (r.Unbroken cs) :=
  decidable_of_iff (r.unbroken cs) unbroken_iff

end Reader

namespace Relocation

variable (R : Relocation) {r r₀ : Reader} {pre : List Char}

theorem initial_reader (ops : List String) (filename : Option String) (source : String) :
    R.reader (Reader.initial ops filename source) = Reader.initial ops filename R.source := by
  have hentity : R.entity ⟨none, none, ⟨0, 1, 1⟩, .sect none #[]⟩ =
      ⟨none, none, ⟨0, 1, 1⟩, .sect none #[]⟩ := by
    rw [entity, position_zero]
  simp [reader, Reader.initial, Tree.blank, tree, hentity, position_zero]

theorem blame_error (added : Bool) (rest : List Char) (e : ParseError) :
    Reader.blame added rest (R.error e) = R.error (Reader.blame added rest e) := by
  cases e with
  | mk fault position =>
    cases fault with
    | unexpected c =>
      simp only [Reader.blame, error]
      split <;> rfl
    | badEscape | unknownOperator | unterminatedString | unexpectedEnd => rfl

theorem finish_reader : (R.reader r).finish = R.result R.tree r.finish := by
  cases h : r.phase <;> simp [Reader.finish, h, result, reader, error]

/-- A run over the same characters. -/
theorem run_reader (h : ∀ n, R.offset (n + 1) = R.offset n + 1) (added : Bool) (cs : List Char) :
    (R.reader r).run added cs = R.result R.tree (r.run added cs) := by
  induction cs generalizing r with
  | nil => exact R.finish_reader
  | cons c cs ih =>
    rw [Reader.run, Reader.run, R.accept_reader (h _)]
    cases r.accept c with
    | ok r' => exact ih
    | error e => exact congrArg Except.error (R.blame_error added cs e)

/-- A run over characters with a blank put before each line feed, if no string has one. -/
theorem run_rebreak (hpre : r₀.Reaches pre r) (cs : List Char) (hwhole : r₀.Unbroken (pre ++ cs))
    (h : ∀ n c, cs[n]? = some c → R.offset (r.cursor.offset + n + 1) =
      R.offset (r.cursor.offset + n) + if c = '\n' then 2 else 1) (added : Bool) :
    (R.reader r).run added (rebreak [' ', '\n'] cs) = R.result R.tree (r.run added cs) := by
  induction cs generalizing r pre with
  | nil => exact R.finish_reader
  | cons c cs ih =>
    have hfirst := h 0 c rfl
    have hrest : ∀ r', r.accept c = .ok r' → (R.reader r').run added (rebreak [' ', '\n'] cs) =
        R.result R.tree (r'.run added cs) := by
      intro r' hr'
      refine ih (hpre.next hr') (by rwa [List.append_assoc]) fun n d hd => ?_
      have hoffset : r'.cursor.offset = r.cursor.offset + 1 := offset_accept hr'
      have hd := h (n + 1) d hd
      rwa [hoffset, Nat.add_assoc _ 1 n, Nat.add_comm 1 n]
    rw [rebreak_cons, Reader.run]
    by_cases hc : c = '\n'
    · subst hc
      have hstring : r.phase.inString = false := hwhole pre r (by simp) hpre
      obtain ⟨r₁, r₂, hr₁, hr₂, hfeed⟩ := R.accept_feed hstring hfirst
      rw [if_pos rfl, List.cons_append, List.singleton_append, Reader.run, hr₂, hr₁]
      show r₂.run added _ = _
      rw [Reader.run, hfeed]
      exact hrest r₁ hr₁
    · rw [if_neg hc] at hfirst
      rw [if_neg hc, List.singleton_append, Reader.run, R.accept_reader hfirst]
      cases hr : r.accept c with
      | ok r' => exact hrest r' hr
      | error e =>
        have hempty : (rebreak [' ', '\n'] cs).isEmpty = cs.isEmpty := by
          cases cs with
          | nil => rfl
          | cons d ds =>
            rw [rebreak_cons]
            split <;> rfl
        show Except.error (Reader.blame added _ (R.error e)) = _
        rw [blame_error, Reader.blame, hempty]
        rfl

end Relocation

end Formulary

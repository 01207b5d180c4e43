import Formulary.Proofs.Library.Results

/-!
# What a value tells of itself

A value carries the name of a variable only if the whole expression does no more than read that
variable: it is an identifier, perhaps in parentheses, and perhaps printed on the way.

* `Calculator.fullName`: the name of a variable or method with its library.
* `Tree.PassesOn`: a row that passes on the value of one identifier.
* `Tree.FormsRow.passesOn_iff`: such a row comes down to a single operand that does so.
* `Value.Truthful`: what a value tells of itself is true of the row that it comes from.
* `Calculator.gives_operandValue`, `Calculator.gives_evaluateTree`: so it is for every operand and
  for every row.
* `Calculator.valueOf_truthful`: and for every expression.
-/

namespace Formulary

open BaseLibrary

variable {m : Type → Type} {tree : Tree} {ops : List String}

/-! ## Names -/

namespace Calculator

/-- The name of a variable or a method with its library in front, which is the default one where
the name has no point. -/
def fullName (text : String) : String :=
  if '.' ∈ text.toList then text else defaultLibrary ++ "." ++ text

theorem splitName_append (text : String) :
    (splitName text).1 ++ "." ++ (splitName text).2 = fullName text := by
  rw [splitName, List.span_eq_takeWhile_dropWhile, fullName]
  have hparts := List.takeWhile_append_dropWhile (p := fun c => decide (c ≠ '.')) (l := text.toList)
  cases hrest : text.toList.dropWhile (fun c => decide (c ≠ '.')) with
  | nil =>
    have hnone : '.' ∉ text.toList := fun hpoint => by
      simpa using List.dropWhile_eq_nil_iff.mp hrest '.' hpoint
    rw [if_neg hnone]
  | cons c name =>
    have hc : c = '.' := by
      have hhead := List.head?_dropWhile_not (fun c => decide (c ≠ '.')) text.toList
      rw [hrest] at hhead
      simpa using hhead
    subst hc
    rw [hrest] at hparts
    rw [if_pos (by rw [← hparts]; simp)]
    apply String.toList_injective
    simpa using hparts

end Calculator

/-! ## Rows that pass a value on -/

/-- A row that passes on the value of the identifier `x`: the identifier itself, such a row in
parentheses, or a call that prints such a row. -/
inductive Tree.PassesOn (tree : Tree) (x : ElementId) : List ElementId → Prop
  | identifier : (tree.element x).kind = .identifier → PassesOn tree x [x]
  | paren {opening closing : ElementId} {ids : List ElementId} :
      (tree.element opening).kind = .symbol → (tree.element opening).text = "(" →
      PassesOn tree x ids → (tree.element closing).kind = .symbol →
      (tree.element closing).text = ")" → PassesOn tree x (opening :: (ids ++ [closing]))
  | call {id a : ElementId} : (tree.element id).kind = .function →
      Calculator.fullName (tree.element id).text ∈ printers →
      (tree.element id).children = #[a] → PassesOn tree x (tree.element a).children.toList →
      PassesOn tree x [id]

namespace Tree

variable {x id : ElementId} {ids : List ElementId}

/-- A single element passes on a value if it is the identifier or prints a row that does. -/
theorem passesOn_singleton_iff : tree.PassesOn x [id] ↔
    x = id ∧ (tree.element id).kind = .identifier ∨
      (tree.element id).kind = .function ∧ Calculator.fullName (tree.element id).text ∈ printers ∧
        ∃ a, (tree.element id).children = #[a] ∧
          tree.PassesOn x (tree.element a).children.toList := by
  constructor
  · intro h
    generalize hids : [id] = ids at h
    cases h with
    | identifier hkind =>
      obtain rfl := List.singleton_inj.mp hids
      exact .inl ⟨rfl, hkind⟩
    | paren => simp at hids
    | call hkind hprinter hchildren hrow =>
      obtain rfl := List.singleton_inj.mp hids
      exact .inr ⟨hkind, hprinter, _, hchildren, hrow⟩
  · rintro (⟨rfl, hkind⟩ | ⟨hkind, hprinter, a, hchildren, hrow⟩)
    · exact .identifier hkind
    · exact .call hkind hprinter hchildren hrow

/-- A row that passes on a value is a phrase with one operand and no operator. -/
theorem PassesOn.exists_phrase (c : Calculator m) (h : tree.PassesOn x ids) :
    ∃ (f : Phrase ElementId) (id : ElementId), ids.filterMap (c.token? tree) = f.tokens ∧
      f.operation = .operand id ∧ tree.PassesOn x [id] := by
  induction h with
  | identifier hkind =>
    have hleaf : tree.IsLeafOperand x := .inr (.inr (.inl hkind))
    exact ⟨.atom (.operand x), x, (hleaf.shows c).tokens, rfl, .identifier hkind⟩
  | paren hopen htext _ hclose htext' ih =>
    obtain ⟨f, id, htokens, hoperation, hid⟩ := ih
    refine ⟨.atom (.paren f), id, ?_, hoperation, hid⟩
    rw [Phrase.tokens, Atom.tokens, ← htokens]
    simp [Calculator.token?, hopen, htext, hclose, htext']
  | @call id a hkind hprinter hchildren hrow _ =>
    have hleaf : tree.IsLeafOperand id := .inr (.inr (.inr hkind))
    exact ⟨.atom (.operand id), id, (hleaf.shows c).tokens, rfl,
      .call hkind hprinter hchildren hrow⟩

theorem IsLeafOperand.eq_of_row {e : ElementId} (h : tree.IsLeafOperand e) (c : Calculator m)
    (hrow : Operation.ofRow? ([e].filterMap (c.token? tree)) = some (.operand id)) : e = id := by
  rw [(h.shows c).tokens] at hrow
  exact Operation.operand.inj (Option.some.inj hrow)

mutual

theorem FormsTerm.passesOn (c : Calculator m) {ids : List ElementId} : tree.FormsTerm ids →
    Operation.ofRow? (ids.filterMap (c.token? tree)) = some (.operand id) →
    tree.PassesOn x [id] → tree.PassesOn x ids
  | .number h, hrow, hid => IsLeafOperand.eq_of_row (.inl h) c hrow ▸ hid
  | .string h, hrow, hid => IsLeafOperand.eq_of_row (.inr (.inl h)) c hrow ▸ hid
  | .identifier h, hrow, hid => IsLeafOperand.eq_of_row (.inr (.inr (.inl h))) c hrow ▸ hid
  | .function h, hrow, hid => IsLeafOperand.eq_of_row (.inr (.inr (.inr h))) c hrow ▸ hid
  | @FormsTerm.paren _ opening closing ids hopen htext hinside hclose htext', hrow, hid => by
    obtain ⟨f, hshows, -⟩ := hinside.exists_phrase c
    have hshown := ((shows_open hopen htext c).append hshows).append (shows_close hclose htext' c)
    have htokens : (opening :: (ids ++ [closing])).filterMap (c.token? tree) =
        (Phrase.atom (.paren f)).tokens := hshown.tokens
    rw [htokens, Phrase.ofRow_tokens] at hrow
    refine .paren hopen htext (FormsRow.passesOn c hinside ?_ hid) hclose htext'
    rw [hshows.tokens, Phrase.ofRow_tokens]
    exact hrow

theorem FormsRow.passesOn (c : Calculator m) {ids : List ElementId} : tree.FormsRow ids →
    Operation.ofRow? (ids.filterMap (c.token? tree)) = some (.operand id) →
    tree.PassesOn x [id] → tree.PassesOn x ids
  | .term hterm, hrow, hid => FormsTerm.passesOn c hterm hrow hid
  | @FormsRow.operate _ ids ids' b hleft hkind hright, hrow, _ => by
    obtain ⟨f, hf, -⟩ := hleft.exists_phrase c
    obtain ⟨t, ht, -⟩ := hright.exists_atom c
    have hb : tree.IsOperator b := hkind
    have htokens : (ids ++ b :: ids').filterMap (c.token? tree) =
        (Phrase.operate f b (c.priority (tree.element b).text) t).tokens :=
      (hf.append ((hb.shows c).append ht)).tokens
    rw [htokens, Phrase.ofRow_tokens] at hrow
    exact absurd (Option.some.inj hrow) (Phrase.operation_operate_ne f b id _ t)

end

/-- A row passes on a value if it comes down to an operand that does. -/
theorem FormsRow.passesOn_iff (c : Calculator m) (h : tree.FormsRow ids)
    {op : Operation ElementId} (hop : Operation.ofRow? (ids.filterMap (c.token? tree)) = some op) :
    tree.PassesOn x ids ↔ ∃ id, op = .operand id ∧ tree.PassesOn x [id] := by
  constructor
  · intro hids
    obtain ⟨f, id, htokens, hoperation, hid⟩ := hids.exists_phrase c
    rw [htokens, Phrase.ofRow_tokens, hoperation] at hop
    exact ⟨id, (Option.some.inj hop).symm, hid⟩
  · rintro ⟨id, rfl, hid⟩
    exact h.passesOn c hop hid

end Tree

/-! ## What a value tells -/

/-- What a value tells of itself is true of the row that it comes from.  Its type name is that of
its payload.  It is null only if it is the null constant, just as that is read.  It has a name
exactly if the row passes on the value of an identifier, which is then the name of a variable. -/
structure Value.Truthful (tree : Tree) (ids : List ElementId) (v : Value) : Prop where
  typeName : v.typeName = some v.kind.name
  isNull : v.isNull ↔ v.name = some "system.null"
  eq_null : v.isNull → v = (Value.null.named "system.null").typed
  name : ∀ n, v.name = some n ↔
    ∃ x, tree.PassesOn x ids ∧ Calculator.fullName (tree.element x).text = n
  known : ∀ n, v.name = some n → n ∈ variableNames

namespace Value

variable {v : Value} {ids ids' : List ElementId}

theorem IsFresh.truthful (h : v.IsFresh) (hids : ∀ x, ¬tree.PassesOn x ids) :
    v.typed.Truthful tree ids := by
  rw [show v = of v.payload from h]
  exact {
    typeName := rfl
    isNull := by simp [typed, of]
    eq_null := by simp [typed, of]
    name := by simp [typed, of, hids]
    known := by simp [typed, of] }

theorem HeldBy.truthful {x : ElementId} (hkind : (tree.element x).kind = .identifier)
    (h : v.HeldBy (Calculator.fullName (tree.element x).text)) :
    (v.named (Calculator.fullName (tree.element x).text)).typed.Truthful tree [x] := by
  have hself : ∀ y, tree.PassesOn y [x] ↔ y = x := by simp [Tree.passesOn_singleton_iff, hkind]
  obtain ⟨hmem, heq⟩ := h
  generalize hname : Calculator.fullName (tree.element x).text = full at hmem heq ⊢
  by_cases hnull : full = "system.null"
  · rw [if_pos hnull] at heq
    subst heq hnull
    exact {
      typeName := rfl
      isNull := by simp [typed, named, null]
      eq_null := fun _ => rfl
      name := by simp [typed, named, null, hself, hname]
      known := by simpa [typed, named, null] using hmem }
  · rw [if_neg hnull] at heq
    rw [heq]
    exact {
      typeName := rfl
      isNull := by simp [typed, named, of, hnull]
      eq_null := by simp [typed, named, of]
      name := by simp [typed, named, of, hself, hname]
      known := by simpa [typed, named, of] using hmem }

theorem Truthful.congr (h : v.Truthful tree ids)
    (hids : ∀ x, tree.PassesOn x ids' ↔ tree.PassesOn x ids) : v.Truthful tree ids' where
  typeName := h.typeName
  isNull := h.isNull
  eq_null := h.eq_null
  name := by simp only [hids, h.name, implies_true]
  known := h.known

theorem Truthful.typed_eq (h : v.Truthful tree ids) : v.typed = v := by
  rw [typed, h.typeName]

/-- The result of a call: a printer passes on the value of its only argument. -/
theorem ResultOf.truthful {id : ElementId} {values : List Value}
    (hkind : (tree.element id).kind = .function) (hfits : tree.CallFits (tree.element id))
    (hvalues : List.Forall₂ (fun a => Truthful tree (tree.element a).children.toList)
      (Calculator.arguments tree id) values)
    (h : v.ResultOf (Calculator.fullName (tree.element id).text) values) :
    v.typed.Truthful tree [id] := by
  by_cases hprinter : Calculator.fullName (tree.element id).text ∈ printers
  · rw [ResultOf, if_pos hprinter] at h
    rw [h] at hvalues
    obtain ⟨a, as, htruthful, hnil, harguments⟩ := List.forall₂_cons_right_iff.mp hvalues
    rw [List.forall₂_nil_right_iff.mp hnil] at harguments
    have hchildren := hfits.children_eq harguments
    rw [htruthful.typed_eq]
    refine htruthful.congr fun x => ?_
    simp [Tree.passesOn_singleton_iff, hkind, hprinter, hchildren]
  · rw [ResultOf, if_neg hprinter] at h
    exact h.truthful (by simp [Tree.passesOn_singleton_iff, hkind, hprinter])

end Value

/-! ## Evaluation -/

variable [Monad m] [LawfulMonad m]

namespace Calculator

/-- All libraries of a calculator are honest under the names that they have. -/
def Honest (c : Calculator m) : Prop := ∀ entry ∈ c.libraries, entry.2.Honest entry.1

variable {c : Calculator m}

theorem gives_theLibrary (hc : c.Honest) (name : String) :
    Gives (Table.Honest name) (c.theLibrary name) := by
  rw [theLibrary]
  split
  · next table htable => exact gives_pure (hc (name, table) (mem_libraries htable))
  · exact gives_throw _

theorem gives_invoke {P : Value → Prop} {library : String} {kind : MemberSort} {name : String}
    {action : Option (Action m)} (h : ∀ a ∈ action, Gives P a) :
    Gives P (invoke library kind name action) := by
  cases action with
  | none => exact gives_throw _
  | some action => exact (h action rfl).adapt _

theorem gives_readVariable (hc : c.Honest) (text : String) :
    Gives (fun v => ∃ held : Value, held.HeldBy (fullName text) ∧ v = held.named (fullName text))
      (c.readVariable text) := by
  rw [← splitName_append]
  exact (gives_theLibrary hc _).bind fun _ htable =>
    (gives_invoke (htable.read _)).bind fun held hheld => gives_pure ⟨held, hheld, rfl⟩

theorem gives_applyOperator (hc : c.Honest) (symbol : String) (left right : Value) :
    Gives Value.IsFresh (c.applyOperator symbol left right) :=
  (gives_theLibrary hc _).bind fun _ htable => gives_invoke (htable.operate symbol left right)

theorem gives_callMethod (hc : c.Honest) (text : String) (arguments : List Value) :
    Gives (Value.ResultOf (fullName text) arguments) (c.callMethod text arguments) := by
  rw [← splitName_append]
  exact (gives_theLibrary hc _).bind fun _ htable => gives_invoke (htable.call _ arguments)

variable {inside : ElementId → Evaluation m Value} {id : ElementId}

theorem gives_operandValue (hc : c.Honest) (hfits : tree.WellFormed ops)
    (hid : id < tree.elements.size) (hleaf : tree.IsLeafOperand id)
    (hinside : ∀ a ∈ arguments tree id,
      Gives (Value.Truthful tree (tree.element a).children.toList) (inside a)) :
    Gives (fun v => v.typed.Truthful tree [id]) (c.operandValue tree inside id) := by
  rcases hleaf with h | h | h | h <;> simp only [operandValue, h]
  · exact gives_pure ((Value.isFresh_of _).truthful (by simp [Tree.passesOn_singleton_iff, h]))
  · exact gives_pure ((Value.isFresh_of _).truthful (by simp [Tree.passesOn_singleton_iff, h]))
  · refine (gives_readVariable hc _).mono ?_
    rintro _ ⟨held, hheld, rfl⟩
    exact hheld.truthful h
  · have hkind := (hfits.elements id hid).kind
    rw [Tree.KindFits, h] at hkind
    exact (gives_mapM hinside).bind fun values hvalues =>
      (gives_callMethod hc _ values).mono fun v hv => hv.truthful h hkind.2 hvalues

/-- What the value of a row tells is true. -/
theorem gives_evaluateTree (hc : c.Honest) (hfits : tree.WellFormed ops) (room : Nat) :
    ∀ {id : ElementId}, id < tree.elements.size → tree.HasRow id →
      Gives (Value.Truthful tree (tree.element id).children.toList)
        (c.evaluateTree tree room id) := by
  induction room with
  | zero => exact fun _ _ => gives_throw _
  | succ room ih =>
    intro id hid hrow
    obtain ⟨op, hop, horder, -, hall⟩ := c.exists_operation hfits hid hrow
    have hpasses : ∀ x, tree.PassesOn x (tree.element id).children.toList ↔
        ∃ e, op = .operand e ∧ tree.PassesOn x [e] :=
      fun x => (hfits.formsRow hid hrow).passesOn_iff c hop
    rw [evaluateTree, hop]
    cases op with
    | operand e =>
      have he : e ∈ c.postfixOrder tree id := by
        rw [horder]
        exact List.mem_singleton_self e
      obtain ⟨hchild, -, hrows⟩ := c.of_mem_postfixOrder hfits hid hrow he
      have hvalue := gives_operandValue hc hfits ((hfits.elements id hid).inside e hchild) hall
        fun a ha => ih (hrows a ha).1 (hrows a ha).2
      refine (hvalue.adapt _).map fun v hv => hv.congr fun x => ?_
      simp [hpasses]
    | apply e left right =>
      -- whatever both sides tell, the operator makes a new value
      refine (gives_trivial _).bind fun x _ => (gives_trivial _).bind fun y _ => ?_
      refine ((gives_applyOperator hc _ x y).adapt _).map fun v hv => hv.truthful fun x => ?_
      simp [hpasses]

/-- The libraries of the standard calculator are honest, whatever the limit is. -/
theorem standard_honest [Console m] (limit : Nat) :
    ((standard : Calculator m).limitDepth limit).Honest := by
  intro entry hentry
  simp only [limitDepth, standard, List.mem_cons, List.not_mem_nil, or_false] at hentry
  rcases hentry with rfl | rfl
  · exact Table.honest_ofMembers ArithmeticLibrary.members_honest
  · exact Table.honest_ofMembers BaseLibrary.members_honest

/-! ## Expressions -/

variable {source : String} {filename : Option String} {W : Type} {s : Interpretation m W}
  {w w' : W} {v : Value}

/-- In whatever way the effects act on a world, what the value of an expression tells of itself is
true: its type name, its null flag, and the name of the variable that the expression reads and
passes on, if it does no more than that. -/
theorem valueOf_truthful [Console m] (h : Tree.read source ops filename = .ok tree) {id : EntityId}
    {root : ElementId} {parens : Nat}
    (hcontent : (tree.entity id).content = .expression root parens) (limit : Nat)
    (hyields : s.Yields ((standard.limitDepth limit).valueOf tree id) w v w') :
    v.Truthful tree (tree.element root).children.toList := by
  have hfits := Tree.wellFormed_of_read h
  obtain ⟨hlt, hnode⟩ := hfits.root_of_content hcontent
  have hhonest : ((standard : Calculator m).limitDepth limit).Honest := standard_honest limit
  have hgives := gives_evaluateTree hhonest hfits (limit + 1) hlt (.inl hnode)
  rw [← evaluate_eq_evaluateTree _ hfits _ hlt (.inl hnode)] at hgives
  rw [valueOf, hcontent] at hyields
  exact (hgives.adapt _).of_yields hyields

def transcript : Interpretation Transcript (List (Channel × String)) := .state _

/-- The null constant in parentheses, printed twice on the way. -/
def passingSource : String := "#a{b=((sysout(system.syserr((null)))));}"

theorem valueOf_truthful_null : ∃ tree, Tree.read passingSource defaultOperators none = .ok tree ∧
    (tree.entity 1).content = .expression 0 0 ∧
    ∃ v w', transcript.Yields ((standard.limitDepth 2).valueOf tree 1) [] v w' ∧ v.isNull ∧
      w' = [(.error, "null"), (.output, "null")] ∧
      v.Truthful tree (tree.element 0).children.toList := by
  obtain ⟨tree, h, hcheck⟩ : ∃ tree, Tree.read passingSource defaultOperators none = .ok tree ∧
      decide ((tree.entity 1).content = .expression 0 0 ∧
        (transcript.outcome ((standard.limitDepth 2).valueOf tree 1) []).1.toOption.map
          Value.isNull = some true ∧
        (transcript.outcome ((standard.limitDepth 2).valueOf tree 1) []).2 =
          [(.error, "null"), (.output, "null")]) :=
    Tree.exists_of_any (p := fun tree => decide ((tree.entity 1).content = _ ∧ _ ∧ _))
      (by decide +kernel)
  obtain ⟨hcontent, hvalue, hworld⟩ := of_decide_eq_true hcheck
  rcases houtcome : transcript.outcome ((standard.limitDepth 2).valueOf tree 1) [] with
    ⟨e | v, w'⟩
  · rw [houtcome] at hvalue
    cases hvalue
  · rw [houtcome] at hvalue hworld
    have hyields : transcript.Yields ((standard.limitDepth 2).valueOf tree 1) [] v w' := houtcome
    exact ⟨tree, h, hcontent, v, w', hyields, Option.some.inj hvalue, hworld,
      valueOf_truthful h hcontent 2 hyields⟩

end Calculator

end Formulary

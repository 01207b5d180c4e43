import Formulary.Proofs.Document.Prefix
import Formulary.Proofs.Document.Word
import Formulary.Proofs.Reader.Nested

/-!
# What a reading has read

At every phase the nest of a reading is the beginning of a document: what is complete in it shows
valid members, items and formulas, and the token is the beginning of a word that may stand there.

* `Begun`, `InRow`: open sections and arrays, and an open row inside them.
* `Stage`: what holds in each phase.
* `Nested.Staged.step`, `Nested.Staged.accept`: one character preserves it.
-/

namespace Formulary

variable {ops : List String}

/-! ## Open entities -/

/-- A member has a name, an item has none. -/
def OpenEntity.Binds : OpenEntity → Option String → Prop
  | .sect _ _ _, name => ∃ text, name = some text ∧ isName text.toList
  | .array _ _, name => name = none

/-- Open sections and arrays that hold valid members and items, the root section last. -/
inductive Begun (ops : List String) : List OpenEntity → Prop where
  | root {title : String} {ms : List Binding} : isName title.toList → Binding.allValid ops ms →
      Begun ops [.sect none (some title) (Binding.outlines ms)]
  | sect {e : OpenEntity} {es : List OpenEntity} {name : Option String} {title : String}
      {ms : List Binding} : Begun ops (e :: es) → e.Binds name → isName title.toList →
      Binding.allValid ops ms →
      Begun ops (.sect name (some title) (Binding.outlines ms) :: e :: es)
  | array {e : OpenEntity} {es : List OpenEntity} {name : Option String} {items : List Entry} :
      Begun ops (e :: es) → e.Binds name → Entry.allValid ops items →
      Begun ops (.array name (Entry.outlines items) :: e :: es)

inductive Untitled (ops : List String) : Nest → Prop where
  | root : Untitled ops (.entity (.sect none none []) [])
  | inner {e : OpenEntity} {es : List OpenEntity} {name : Option String} : Begun ops (e :: es) →
      e.Binds name → Untitled ops (.entity (.sect name none []) (e :: es))

inductive Closed (ops : List String) : Nest → Prop where
  | inner {e : OpenEntity} {es : List OpenEntity} : Begun ops (e :: es) → e.closed ≠ [] →
      Closed ops (.entity e es)
  | root {d : Document} : d.valid ops → Closed ops (.done d.outline)

variable {e : OpenEntity} {es : List OpenEntity} {name : Option String}

/-- A complete value is one more member or item. -/
theorem Begun.add {v : Entry} (h : Begun ops (e :: es)) (hb : e.Binds name)
    (hv : v.valid ops) : Begun ops (e.add (v.outline name) :: es) := by
  have hmember : ∀ {text : String} {ms : List Binding}, isName text.toList →
      Binding.allValid ops ms → Binding.allValid ops (ms ++ [.mk text v]) := by
    intro text ms ht hms
    simp [Binding.allValid_append, Binding.allValid, Binding.valid, ht, hms, hv]
  cases h with
  | root ht hms =>
    obtain ⟨text, rfl, htext⟩ := hb
    have := Begun.root ht (hmember htext hms)
    rwa [Binding.outlines_append] at this
  | sect h' hb' ht hms =>
    obtain ⟨text, rfl, htext⟩ := hb
    have := Begun.sect h' hb' ht (hmember htext hms)
    rwa [Binding.outlines_append] at this
  | @array _ _ _ items h' hb' hitems =>
    obtain rfl : name = none := hb
    have hall : Entry.allValid ops (items ++ [v]) := by
      simp [Entry.allValid_append, Entry.allValid, hitems, hv]
    have := Begun.array h' hb' hall
    rwa [Entry.outlines_append] at this

theorem Begun.close_array {items : List EntityOutline} (h : Begun ops (.array name items :: es)) :
    ∃ e es', Nest.close (.array name items) es = .entity e es' ∧ Begun ops (e :: es') ∧
      e.closed ≠ [] := by
  cases h with
  | @array e es _ items h' hb hitems =>
    refine ⟨_, _, rfl, h'.add (v := .array items) hb (by rwa [Entry.valid]), ?_⟩
    simp

theorem Begun.close_sect {title : String} {ms : List EntityOutline}
    (h : Begun ops (.sect name (some title) ms :: es)) :
    Closed ops (Nest.close (.sect name (some title) ms) es) := by
  cases h with
  | @root _ ms ht hms =>
    refine Closed.root (d := ⟨title, ms⟩) ?_
    rw [Document.valid, ht, hms]
    rfl
  | @sect e es _ _ ms h' hb ht hms =>
    refine .inner (h'.add (v := .sect title ms) hb ?_) (by simp)
    rw [Entry.valid, ht, hms]
    rfl

theorem Begun.exists_outer {items : List EntityOutline} (h : Begun ops (.array name items :: es)) :
    ∃ e es', es = e :: es' := by
  cases h
  exact ⟨_, _, rfl⟩

theorem Begun.exists_titled (h : Begun ops es) : ∃ e ∈ es, e.isTitled := by
  induction h with
  | root => exact ⟨_, List.mem_singleton_self _, rfl⟩
  | sect => exact ⟨_, List.mem_cons_self, rfl⟩
  | array _ _ _ ih =>
    obtain ⟨e, he, ht⟩ := ih
    exact ⟨e, List.mem_cons_of_mem _ he, ht⟩

/-! ## Open rows -/

/-- Calls that are open around a row, each of them where a term belongs. -/
inductive CallsOpen (ops : List String) : List (OpenCall × OpenRow) → Prop where
  | nil : CallsOpen ops []
  | cons {call : OpenCall} {o : OpenRow} {outer : List (OpenCall × OpenRow)} {fs : List Formula} :
      isName call.name.toList → Formula.allValid ops fs → call.done = Formula.rows fs →
      Expecting ops o.parens o.row → CallsOpen ops outer → CallsOpen ops ((call, o) :: outer)

inductive InRow (ops : List String) (P : Nat → List ElementOutline → Prop) : Nest → Prop where
  | mk {e : OpenEntity} {es : List OpenEntity} {name : Option String} {row : List ElementOutline}
      {parens : Nat} {outer : List (OpenCall × OpenRow)} : Begun ops (e :: es) → e.Binds name →
      CallsOpen ops outer → P parens row → InRow ops P (.row e es name ⟨⟨row, parens⟩, outer⟩)

theorem InRow.exists_row {P : Nat → List ElementOutline → Prop} {n : Nest} (h : InRow ops P n) :
    ∃ e es name f, n = .row e es name f := by
  cases h
  exact ⟨_, _, _, _, rfl⟩

/-- A complete term ends in the innermost row. -/
theorem InRow.term {n : Nest} {kind : ElementKind} {text : String} {t : Term}
    (h : InRow ops (Expecting ops) n) (hv : t.valid ops) (ht : t.row = [.leaf kind text]) :
    InRow ops (Complete ops) (n.addLeaf kind text) := by
  obtain @⟨e, es, name, row, parens, outer, h', hb, hcalls, hrow⟩ := h
  have := hrow.term hv
  rw [ht] at this
  exact .mk h' hb hcalls this

theorem InRow.operator {n : Nest} {operator : String} (h : InRow ops (Complete ops) n)
    (ho : ops.contains operator) : InRow ops (Expecting ops) (n.addLeaf .operator operator) := by
  obtain @⟨e, es, name, row, parens, outer, h', hb, hcalls, hrow⟩ := h
  exact .mk h' hb hcalls (hrow.operator ho)

/-- A closed call is a term. -/
theorem call_outline {call : OpenCall} {fs : List Formula} {f : Formula}
    (hname : isName call.name.toList) (hfs : Formula.allValid ops fs)
    (hdone : call.done = Formula.rows fs) (hf : f.valid ops) :
    ∃ t : Term, t.valid ops ∧ t.row = [call.outline f.row] := by
  refine ⟨.call call.name (fs ++ [f]), ?_, ?_⟩
  · simp [Term.valid, Formula.allValid_append, Formula.allValid, hname, hfs, hf]
  · simp [Term.row, Formula.rows_append, Formula.rows, ElementOutline.call, OpenCall.outline, hdone,
      OpenFormula.wrapper]

theorem call_outline_nil (ops : List String) {call : OpenCall} (hname : isName call.name.toList)
    (hdone : call.done = []) : ∃ t : Term, t.valid ops ∧ t.row = [call.outline []] := by
  refine ⟨.call call.name [], ?_, ?_⟩
  · simp [Term.valid, Formula.allValid, hname]
  · simp [Term.row, Formula.rows, ElementOutline.call, OpenCall.outline, hdone,
      OpenFormula.wrapper]

/-! ## Phases -/

/-- What holds of the nest, the token and the member name in each phase. -/
inductive Stage (ops : List String) : Phase → Nest → String → Option String → Prop where
  | start {token : String} : Stage ops .start (.entity (.sect none none []) []) token none
  | sectionMark {n : Nest} {token : String} : Untitled ops n → Stage ops .sectionMark n token none
  | sectionTitle {n : Nest} {token : String} : Untitled ops n → isName token.toList →
      Stage ops .sectionTitle n token none
  | sectionOpen {es : List OpenEntity} {name : Option String} {title token : String} :
      Begun ops (.sect name (some title) [] :: es) →
      Stage ops .sectionOpen (.entity (.sect name (some title) []) es) token none
  | memberEnd {es : List OpenEntity} {name : Option String} {title token : String}
      {ms : List EntityOutline} : Begun ops (.sect name (some title) ms :: es) →
      Stage ops .memberEnd (.entity (.sect name (some title) ms) es) token none
  | memberName {es : List OpenEntity} {name : Option String} {title token : String}
      {ms : List EntityOutline} : Begun ops (.sect name (some title) ms :: es) →
      isName token.toList →
      Stage ops .memberName (.entity (.sect name (some title) ms) es) token none
  | memberEquals {es : List OpenEntity} {name : Option String} {title token member : String}
      {ms : List EntityOutline} : Begun ops (.sect name (some title) ms :: es) →
      isName member.toList →
      Stage ops .memberEquals (.entity (.sect name (some title) ms) es) token (some member)
  | arrayOpen {es : List OpenEntity} {name : Option String} {token : String} :
      Begun ops (.array name [] :: es) →
      Stage ops .arrayOpen (.entity (.array name []) es) token none
  | arrayComma {es : List OpenEntity} {name : Option String} {token : String}
      {items : List EntityOutline} : Begun ops (.array name items :: es) →
      Stage ops .arrayComma (.entity (.array name items) es) token none
  | sectionClose {n : Nest} {token : String} : Closed ops n → Stage ops .sectionClose n token none
  | arrayClose {e : OpenEntity} {es : List OpenEntity} {token : String} : Begun ops (e :: es) →
      e.closed ≠ [] → Stage ops .arrayClose (.entity e es) token none
  | parenOpen {n : Nest} {token : String} : InRow ops (Expecting ops) n →
      Stage ops .parenOpen n token none
  | callOpen {e : OpenEntity} {es : List OpenEntity} {name : Option String} {function : String}
      {o : OpenRow} {outer : List (OpenCall × OpenRow)} {token : String} : Begun ops (e :: es) →
      e.Binds name → CallsOpen ops ((⟨function, []⟩, o) :: outer) →
      Stage ops .callOpen (.row e es name ⟨⟨[], 0⟩, (⟨function, []⟩, o) :: outer⟩) token none
  | callComma {e : OpenEntity} {es : List OpenEntity} {name : Option String} {call : OpenCall}
      {o : OpenRow} {row : List ElementOutline} {outer : List (OpenCall × OpenRow)}
      {token : String} : Begun ops (e :: es) → e.Binds name → CallsOpen ops ((call, o) :: outer) →
      Complete ops 0 row →
      Stage ops .callComma (.row e es name ⟨⟨row, 0⟩, (call, o) :: outer⟩) token none
  | string {n : Nest} {token : String} : InRow ops (Expecting ops) n →
      (∀ c ∈ token.toList, c ≠ '\r') → Stage ops .string n token none
  | stringEscape {n : Nest} {token : String} : InRow ops (Expecting ops) n →
      (∀ c ∈ token.toList, c ≠ '\r') → Stage ops .stringEscape n token none
  | minus {n : Nest} : InRow ops (Expecting ops) n → Stage ops .minus n "-" none
  | number {n : Nest} {token : String} : InRow ops (Expecting ops) n → Whole token.toList →
      Stage ops .number n token none
  | numberPoint {n : Nest} {token : String} : InRow ops (Expecting ops) n → Pointed token.toList →
      Stage ops .numberPoint n token none
  | numberFraction {n : Nest} {token : String} : InRow ops (Expecting ops) n →
      Fractional token.toList → Stage ops .numberFraction n token none
  | identifier {n : Nest} {token : String} : InRow ops (Expecting ops) n → isName token.toList →
      Stage ops .identifier n token none
  | parenClose {n : Nest} {token : String} : InRow ops (Complete ops) n →
      Stage ops .parenClose n token none
  | stringEnd {n : Nest} {token : String} : InRow ops (Complete ops) n →
      Stage ops .stringEnd n token none
  | operator {n : Nest} {token : String} : InRow ops (Complete ops) n →
      Stage ops .operator n token none
  | final {d : Document} {token : String} : d.valid ops →
      Stage ops .final (.done d.outline) token none

namespace Nested

def Staged (ops : List String) (s : Nested) : Prop := Stage ops s.phase s.nest s.token s.memberName

theorem staged_initial : Staged ops initial := .start

variable {s s' : Nested} {c : Char}

/-! ## Tokens -/

theorem isName_singleton (hc : isNameStart c) : isName (String.singleton c).toList := by
  rw [String.toList_singleton]
  exact isName_single hc

theorem isName_push {token : String} (h : isName token.toList) (hc : isNamePart c) :
    isName (token.push c).toList := by
  rw [String.toList_push]
  exact isName_append h hc

theorem push_ne {token : String} {d : Char} (h : ∀ b ∈ token.toList, b ≠ d) (hc : c ≠ d) :
    ∀ b ∈ (token.push c).toList, b ≠ d := by
  intro b hb
  rw [String.toList_push, List.mem_append, List.mem_singleton] at hb
  rcases hb with hb | rfl
  · exact h b hb
  · exact hc

/-! ## The end of a value -/

theorem Staged.separate_entity (h : Begun ops (e :: es)) (hn : s.nest = .entity e es)
    (hm : s.memberName = none) (hs : s.separate c = some s') : s'.Staged ops := by
  cases e with
  | sect name title ms =>
    obtain ⟨title, rfl⟩ : ∃ text, title = some text := by cases h <;> exact ⟨_, rfl⟩
    simp only [separate, hn] at hs
    split at hs
    · cases hs
      show Stage ops .memberEnd s.nest s.token s.memberName
      rw [hn, hm]
      exact .memberEnd h
    · cases hs
  | array name items =>
    simp only [separate, hn] at hs
    split at hs
    · cases hs
      show Stage ops .arrayComma s.nest s.token s.memberName
      rw [hn, hm]
      exact .arrayComma h
    · split at hs
      · cases hs
        obtain ⟨e, es', hclose, h', hne⟩ := h.close_array
        show Stage ops .arrayClose (Nest.close (.array name items) es) s.token s.memberName
        rw [hclose, hm]
        exact .arrayClose h' hne
      · cases hs

theorem Staged.separate_row (h : InRow ops (Complete ops) s.nest) (hm : s.memberName = none)
    (hs : s.separate c = some s') : s'.Staged ops := by
  obtain ⟨p, n, b, token, m⟩ := s
  obtain rfl : m = none := hm
  obtain @⟨e, es, name, row, parens, outer, h, hb, hcalls, hrow⟩ := h
  simp only [separate] at hs
  split at hs
  · next hcomma =>
    obtain ⟨-, houter, rfl⟩ := hcomma
    cases hs
    cases outer with
    | nil => exact absurd rfl houter
    | cons co outer => exact .callComma h hb hcalls hrow
  · split at hs
    · cases parens with
      | succ parens =>
        cases hs
        exact .parenClose (.mk h hb hcalls hrow.closeParen)
      | zero =>
        cases hcalls with
        | nil => cases hs
        | cons hname hfs hdone ho houter =>
          cases hs
          obtain ⟨f, hf, rfl⟩ := hrow.formula
          obtain ⟨t, ht, htrow⟩ := call_outline hname hfs hdone hf
          have := ho.term ht
          rw [htrow] at this
          exact .parenClose (.mk h hb houter this)
    · cases hs

theorem endsExpression_eq {f : OpenFormula} (h : endsExpression e f c = true) :
    f = ⟨⟨f.inner.row, 0⟩, []⟩ := by
  have hdepth : f.depth = 0 := of_decide_eq_true ((Bool.and_eq_true _ _).mp h).1
  obtain ⟨⟨row, parens⟩, outer⟩ := f
  cases outer with
  | nil =>
    rw [OpenFormula.depth, OpenFormula.outerDepth, Nat.add_zero] at hdepth
    subst hdepth
    rfl
  | cons co outer =>
    rw [OpenFormula.depth, OpenFormula.outerDepth] at hdepth
    omega

/-- After a complete operand the value may end, and what is around it goes on. -/
theorem leaveExpression_cases (h : InRow ops (Complete ops) s.nest) (c : Char) :
    InRow ops (Complete ops) (s.leaveExpression c).nest ∨
      ∃ e es, (s.leaveExpression c).nest = .entity e es ∧ Begun ops (e :: es) := by
  obtain ⟨p, n, b, token, m⟩ := s
  obtain @⟨e, es, name, row, parens, outer, h', hb, hcalls, hrow⟩ := id h
  simp only [leaveExpression]
  split
  · next hends =>
    have hformula := endsExpression_eq ((Bool.and_eq_true _ _).mp hends).2
    obtain ⟨rfl, rfl⟩ : parens = 0 ∧ outer = [] := by simpa using hformula
    obtain ⟨f, hf, rfl⟩ := hrow.formula
    exact .inr ⟨_, _, rfl, h'.add (v := .formula f) hb (by rwa [Entry.valid])⟩
  · exact .inl h

@[simp] theorem memberName_leaveExpression : (s.leaveExpression c).memberName = s.memberName := by
  rw [leaveExpression]
  split <;> try split
  all_goals rfl

theorem Staged.leave_separate (h : InRow ops (Complete ops) s.nest) (hm : s.memberName = none)
    (hs : (s.leaveExpression c).separate c = some s') : s'.Staged ops := by
  have hm' : (s.leaveExpression c).memberName = none := by rw [memberName_leaveExpression, hm]
  rcases leaveExpression_cases h c with hrow | ⟨e, es, hn, h'⟩
  · exact separate_row hrow hm' hs
  · exact separate_entity h' hn hm' hs

/-- The phases after an operand that is not an element yet. -/
theorem Staged.flushOperand (h : s.Staged ops) (hp : s.phase.endsOperand) :
    InRow ops (Complete ops) s.flushOperand.nest ∧ s.flushOperand.memberName = none := by
  obtain ⟨p, n, b, token, m⟩ := s
  cases h with
  | number hn ht =>
    exact ⟨hn.term (t := .number token) (isNumber_iff.mpr (.inl ht)) rfl, rfl⟩
  | numberFraction hn ht =>
    exact ⟨hn.term (t := .number token) (isNumber_iff.mpr (.inr ht)) rfl, rfl⟩
  | identifier hn ht => exact ⟨hn.term (t := .name token) ht rfl, rfl⟩
  | parenClose hn => exact ⟨hn, rfl⟩
  | stringEnd hn => exact ⟨hn, rfl⟩
  | _ => cases hp

theorem Staged.afterValue_operand (h : s.Staged ops) (hp : s.phase.endsOperand)
    (hs : s.afterValue c = some s') : s'.Staged ops := by
  obtain ⟨hrow, hm⟩ := h.flushOperand hp
  rw [afterValue] at hs
  split at hs
  · exact leave_separate hrow hm hs
  · cases hs

/-- Where no operand has ended, nothing has to be completed. -/
theorem separate_of_afterValue (hp : s.phase.endsOperand = false) (hs : s.afterValue c = some s') :
    s.separate c = some s' := by
  have hflush : s.flushOperand = s := by
    obtain ⟨p, n, b, token, m⟩ := s
    cases p <;> first | rfl | cases hp
  have hleave : s.leaveExpression c = s := by
    rw [leaveExpression]
    split
    · rw [hp]
      rfl
    · rfl
  rw [afterValue, hflush, hleave] at hs
  split at hs
  · exact hs
  · cases hs

theorem Staged.afterTerm (h : s.Staged ops) (hp : s.phase = .parenClose ∨ s.phase = .stringEnd)
    (hs : s.afterTerm ops c = some s') : s'.Staged ops := by
  have hends : s.phase.endsOperand := by rcases hp with hp | hp <;> rw [hp] <;> rfl
  have hflush : s.flushOperand = s := by
    rcases hp with hp | hp <;> simp [Nested.flushOperand, hp]
  rw [Nested.afterTerm] at hs
  split at hs
  · cases hs
    obtain ⟨hrow, hm⟩ := h.flushOperand hends
    rw [hflush] at hrow hm
    show Stage ops .operator s.nest _ s.memberName
    rw [hm]
    exact .operator hrow
  · exact h.afterValue_operand hends hs

theorem Staged.afterToken {kind : ElementKind} (h : s.Staged ops) (hp : s.phase.endsOperand)
    (hflush : s.flushOperand = s.flush kind) (hs : s.afterToken ops kind c = some s') :
    s'.Staged ops := by
  rw [Nested.afterToken] at hs
  split at hs
  · cases hs
    obtain ⟨hrow, hm⟩ := h.flushOperand hp
    rw [hflush] at hrow hm
    show Stage ops .operator (s.flush kind).nest _ (s.flush kind).memberName
    rw [hm]
    exact .operator hrow
  · exact h.afterValue_operand hp hs

/-! ## The start of a value -/

def startsTerm : Phase → Bool
  | .operator | .parenOpen | .callOpen | .callComma | .memberEquals | .arrayOpen
  | .arrayComma => true
  | _ => false

theorem Staged.placeTerm (h : s.Staged ops) (hp : startsTerm s.phase)
    (hs : s.placeTerm ops = some s') :
    InRow ops (Expecting ops) s'.nest ∧ s'.memberName = none := by
  obtain ⟨p, n, b, token, m⟩ := s
  cases h with
  | operator hn =>
    simp only [Nested.placeTerm, if_true] at hs
    split at hs
    · next ho =>
      cases hs
      exact ⟨hn.operator ho, rfl⟩
    · cases hs
  | @parenOpen _ _ hn =>
    obtain @⟨e, es, name, row, parens, outer, h', hb, hcalls, hrow⟩ := id hn
    cases outer with
    | nil => cases hs; exact ⟨hn, rfl⟩
    | cons co outer => cases hs; exact ⟨hn, rfl⟩
  | callOpen h' hb hcalls => cases hs; exact ⟨.mk h' hb hcalls .nil, rfl⟩
  | callComma h' hb hcalls hrow =>
    cases hs
    cases hcalls with
    | @cons _ _ _ fs hname hfs hdone ho houter =>
      obtain ⟨f, hf, rfl⟩ := hrow.formula
      refine ⟨.mk h' hb (@CallsOpen.cons ops _ _ _ (fs ++ [f]) hname ?_ ?_ ho houter) .nil, rfl⟩
      · rw [Formula.allValid_append, hfs, Formula.allValid, hf]
        rfl
      · rw [Formula.rows_append, hdone]
        rfl
  | memberEquals h' hmember => cases hs; exact ⟨.mk h' ⟨_, rfl, hmember⟩ .nil .nil, rfl⟩
  | arrayOpen h' => cases hs; exact ⟨.mk h' rfl .nil .nil, rfl⟩
  | arrayComma h' => cases hs; exact ⟨.mk h' rfl .nil .nil, rfl⟩
  | _ => cases hp

theorem Staged.beginTerm (h : InRow ops (Expecting ops) s.nest) (hm : s.memberName = none)
    (hs : s.beginTerm c = some s') : s'.Staged ops := by
  obtain ⟨p, n, b, token, m⟩ := s
  obtain rfl : m = none := hm
  rw [Nested.beginTerm] at hs
  split at hs
  · obtain @⟨e, es, name, row, parens, outer, h', hb, hcalls, hrow⟩ := h
    cases hs
    exact .parenOpen (.mk h' hb hcalls hrow.openParen)
  split at hs
  · cases hs
    exact .string h (by simp)
  split at hs
  · next hminus =>
    cases hs
    subst hminus
    exact .minus h
  split at hs
  · next hdigit =>
    cases hs
    refine .number h ?_
    show Whole (String.singleton c).toList
    rw [String.toList_singleton]
    exact .single hdigit
  split at hs
  · next hname =>
    cases hs
    exact .identifier h (isName_singleton hname)
  · cases hs

theorem Staged.startTerm (h : s.Staged ops) (hp : startsTerm s.phase)
    (hs : s.startTerm ops c = some s') : s'.Staged ops := by
  rw [Nested.startTerm] at hs
  split at hs
  · obtain ⟨s₁, hplace, hbegin⟩ := Option.bind_eq_some_iff.mp hs
    obtain ⟨hrow, hm⟩ := h.placeTerm hp hplace
    exact beginTerm hrow hm hbegin
  · cases hs

theorem Staged.startValue (h : s.Staged ops) (hp : startsTerm s.phase)
    (hn : s.nest = .entity e es) (he : Begun ops (e :: es)) (hb : e.Binds s.memberName)
    (hs : s.startValue ops c = some s') : s'.Staged ops := by
  simp only [Nested.startValue, hn] at hs
  split at hs
  · cases hs
    exact .arrayOpen (@Begun.array ops e es s.memberName [] he hb rfl)
  split at hs
  · cases hs
    exact .sectionMark (.inner he hb)
  · exact h.startTerm hp hs

theorem Staged.startMember {title : String} {ms : List EntityOutline}
    (h : Begun ops (.sect name (some title) ms :: es))
    (hn : s.nest = .entity (.sect name (some title) ms) es) (hm : s.memberName = none)
    (hs : s.startMember c = some s') : s'.Staged ops := by
  obtain ⟨p, n, b, token, m⟩ := s
  obtain rfl : n = _ := hn
  obtain rfl : m = none := hm
  simp only [Nested.startMember] at hs
  split at hs
  · cases hs
    exact .sectionClose h.close_sect
  split at hs
  · next hstart =>
    cases hs
    exact .memberName h (isName_singleton hstart)
  · cases hs

/-! ## The step -/

variable {n : Nest} {b : Bool} {token : String}

/-- The name of a section grows up to its brace. -/
theorem Staged.step_title (hn : Untitled ops n) (ht : isName token.toList)
    (hs : Nested.step ops ⟨.sectionTitle, n, b, token, none⟩ c = some s') : s'.Staged ops := by
  simp only [Nested.step] at hs
  split at hs
  · next hpart =>
    cases hs
    exact .sectionTitle hn (isName_push ht ((Bool.and_eq_true _ _).mp hpart).2)
  split at hs
  · cases hn with
    | root =>
      cases hs
      exact .sectionOpen (@Begun.root ops _ [] ht rfl)
    | inner h' hb =>
      cases hs
      exact .sectionOpen (@Begun.sect ops _ _ _ _ [] h' hb ht rfl)
  · cases hs

/-- The name of a member grows up to the equals sign. -/
theorem Staged.step_member {title : String} {ms : List EntityOutline}
    (h : Begun ops (.sect name (some title) ms :: es)) (ht : isName token.toList)
    (hs : Nested.step ops ⟨.memberName, .entity (.sect name (some title) ms) es, b, token, none⟩ c =
      some s') : s'.Staged ops := by
  simp only [Nested.step] at hs
  split at hs
  · next hpart =>
    cases hs
    exact .memberName h (isName_push ht ((Bool.and_eq_true _ _).mp hpart).2)
  split at hs
  · cases hs
    exact .memberEquals h ht
  · cases hs

/-- An array without items is closed, or its first item begins. -/
theorem Staged.step_array (h : Begun ops (.array name [] :: es))
    (hs : Nested.step ops ⟨.arrayOpen, .entity (.array name []) es, b, token, none⟩ c = some s') :
    s'.Staged ops := by
  have hstaged : Staged ops ⟨.arrayOpen, .entity (.array name []) es, b, token, none⟩ :=
    .arrayOpen h
  simp only [Nested.step] at hs
  split at hs
  · cases hs
    obtain ⟨e, es', hclose, h', hne⟩ := h.close_array
    show Stage ops .arrayClose (Nest.close _ _) token none
    rw [hclose]
    exact .arrayClose h' hne
  · exact hstaged.startValue rfl rfl h rfl hs

/-- After the root section only the final point may come. -/
theorem Staged.step_section (hn : Closed ops n)
    (hs : Nested.step ops ⟨.sectionClose, n, b, token, none⟩ c = some s') : s'.Staged ops := by
  simp only [Nested.step, afterSection] at hs
  cases hn with
  | inner h' _ => exact separate_entity h' rfl rfl (separate_of_afterValue rfl hs)
  | root hd =>
    simp only at hs
    split at hs
    · cases hs
      exact .final hd
    · cases hs

/-- A call without arguments is closed, or its first argument begins. -/
theorem Staged.step_call {function : String} {o : OpenRow} {outer : List (OpenCall × OpenRow)}
    (h : Begun ops (e :: es)) (hb : e.Binds name)
    (hcalls : CallsOpen ops ((⟨function, []⟩, o) :: outer))
    (hs : Nested.step ops ⟨.callOpen, .row e es name ⟨⟨[], 0⟩, (⟨function, []⟩, o) :: outer⟩, b,
      token, none⟩ c = some s') : s'.Staged ops := by
  have hstaged : Staged ops ⟨.callOpen, .row e es name ⟨⟨[], 0⟩, (⟨function, []⟩, o) :: outer⟩, b,
    token, none⟩ := .callOpen h hb hcalls
  simp only [Nested.step] at hs
  split at hs
  · next hparen =>
    subst hparen
    cases hcalls with
    | cons hname hfs hdone ho houter =>
      cases hs
      obtain ⟨t, ht, htrow⟩ := call_outline_nil ops hname rfl
      have := ho.term ht
      rw [htrow] at this
      exact .parenClose (.mk h hb houter this)
  · exact hstaged.startTerm rfl hs

/-- A string holds every character but a carriage return. -/
theorem Staged.step_string (hn : InRow ops (Expecting ops) n) (ht : ∀ c ∈ token.toList, c ≠ '\r')
    (hc : c ≠ '\r') (hs : Nested.step ops ⟨.string, n, b, token, none⟩ c = some s') :
    s'.Staged ops := by
  simp only [Nested.step] at hs
  split at hs
  · cases hs
    exact .stringEscape hn ht
  split at hs
  · cases hs
    have hv : (Term.string token).valid ops := by
      rw [Term.valid, List.all_eq_true]
      exact fun c hc => decide_eq_true (ht c hc)
    exact .stringEnd (hn.term hv rfl)
  · cases hs
    exact .string hn (push_ne ht hc)

theorem Staged.step_escape (hn : InRow ops (Expecting ops) n) (ht : ∀ c ∈ token.toList, c ≠ '\r')
    (hc : c ≠ '\r') (hs : Nested.step ops ⟨.stringEscape, n, b, token, none⟩ c = some s') :
    s'.Staged ops := by
  simp only [Nested.step, unescape] at hs
  split at hs
  · cases hs
    exact .string hn (push_ne ht hc)
  split at hs
  · cases hs
    exact .string hn (push_ne ht (by decide))
  · cases hs

theorem Staged.step_minus (hn : InRow ops (Expecting ops) n)
    (hs : Nested.step ops ⟨.minus, n, b, "-", none⟩ c = some s') : s'.Staged ops := by
  simp only [Nested.step] at hs
  split at hs
  · next hdigit =>
    cases hs
    refine .number hn ?_
    show Whole (String.push "-" c).toList
    rw [String.toList_push]
    exact .minus hdigit
  · cases hs

/-- The digits before the point. -/
theorem Staged.step_whole (hn : InRow ops (Expecting ops) n) (ht : Whole token.toList)
    (hs : Nested.step ops ⟨.number, n, b, token, none⟩ c = some s') : s'.Staged ops := by
  have hstaged : Staged ops ⟨.number, n, b, token, none⟩ := .number hn ht
  simp only [Nested.step] at hs
  split at hs
  · next hdigit =>
    cases hs
    refine .number hn ?_
    show Whole (token.push c).toList
    rw [String.toList_push]
    exact ht.append ((Bool.and_eq_true _ _).mp hdigit).2
  split at hs
  · next hpoint =>
    cases hs
    refine .numberPoint hn ?_
    show Pointed (token.push c).toList
    rw [String.toList_push, of_decide_eq_true ((Bool.and_eq_true _ _).mp hpoint).2]
    exact ht.point
  · exact hstaged.afterToken rfl rfl hs

theorem Staged.step_point (hn : InRow ops (Expecting ops) n) (ht : Pointed token.toList)
    (hs : Nested.step ops ⟨.numberPoint, n, b, token, none⟩ c = some s') : s'.Staged ops := by
  simp only [Nested.step] at hs
  split at hs
  · next hdigit =>
    cases hs
    refine .numberFraction hn ?_
    show Fractional (token.push c).toList
    rw [String.toList_push]
    exact ht.append ((Bool.and_eq_true _ _).mp hdigit).2
  · cases hs

/-- The digits after the point. -/
theorem Staged.step_fraction (hn : InRow ops (Expecting ops) n) (ht : Fractional token.toList)
    (hs : Nested.step ops ⟨.numberFraction, n, b, token, none⟩ c = some s') : s'.Staged ops := by
  have hstaged : Staged ops ⟨.numberFraction, n, b, token, none⟩ := .numberFraction hn ht
  simp only [Nested.step] at hs
  split at hs
  · next hdigit =>
    cases hs
    refine .numberFraction hn ?_
    show Fractional (token.push c).toList
    rw [String.toList_push]
    exact ht.append ((Bool.and_eq_true _ _).mp hdigit).2
  · exact hstaged.afterToken rfl rfl hs

/-- A name grows, or the parenthesis after it makes it a call. -/
theorem Staged.step_identifier (hn : InRow ops (Expecting ops) n) (ht : isName token.toList)
    (hs : Nested.step ops ⟨.identifier, n, b, token, none⟩ c = some s') : s'.Staged ops := by
  have hstaged : Staged ops ⟨.identifier, n, b, token, none⟩ := .identifier hn ht
  simp only [Nested.step] at hs
  split at hs
  · next hpart =>
    cases hs
    exact .identifier hn (isName_push ht ((Bool.and_eq_true _ _).mp hpart).2)
  split at hs
  · obtain @⟨e, es, name, row, parens, outer, h', hb, hcalls, hrow⟩ := hn
    cases hs
    exact .callOpen h' hb (@CallsOpen.cons ops _ _ _ [] ht rfl rfl hrow hcalls)
  · exact hstaged.afterToken rfl rfl hs

/-- One character preserves the stage.  A carriage return never gets here. -/
theorem Staged.step (h : s.Staged ops) (hc : c ≠ '\r') (hs : s.step ops c = some s') :
    s'.Staged ops := by
  have hstaged := h
  obtain ⟨p, n, b, token, m⟩ := s
  cases h with
  | start =>
    simp only [Nested.step] at hs
    split at hs
    · cases hs
      exact .sectionMark .root
    · cases hs
  | sectionMark hn =>
    simp only [Nested.step] at hs
    split at hs
    · next hstart =>
      cases hs
      exact .sectionTitle hn (isName_singleton hstart)
    · cases hs
  | sectionTitle hn ht => exact step_title hn ht hs
  | sectionOpen h' =>
    exact Staged.startMember h' (s := ⟨.sectionOpen, _, b, token, none⟩) rfl rfl hs
  | memberEnd h' =>
    exact Staged.startMember h' (s := ⟨.memberEnd, _, b, token, none⟩) rfl rfl hs
  | memberName h' ht => exact step_member h' ht hs
  | memberEquals h' ht => exact hstaged.startValue rfl rfl h' ⟨_, rfl, ht⟩ hs
  | arrayOpen h' => exact step_array h' hs
  | arrayComma h' => exact hstaged.startValue rfl rfl h' rfl hs
  | sectionClose hn => exact step_section hn hs
  | arrayClose h' _ => exact separate_entity h' rfl rfl (separate_of_afterValue rfl hs)
  | parenOpen hn => exact hstaged.startTerm rfl hs
  | callComma h' hb hcalls hrow => exact hstaged.startTerm rfl hs
  | callOpen h' hb hcalls => exact step_call h' hb hcalls hs
  | string hn ht => exact step_string hn ht hc hs
  | stringEscape hn ht => exact step_escape hn ht hc hs
  | minus hn => exact step_minus hn hs
  | number hn ht => exact step_whole hn ht hs
  | numberPoint hn ht => exact step_point hn ht hs
  | numberFraction hn ht => exact step_fraction hn ht hs
  | operator hn =>
    simp only [Nested.step] at hs
    split at hs
    · cases hs
      exact .operator hn
    · exact hstaged.startTerm rfl hs
  | identifier hn ht => exact step_identifier hn ht hs
  | parenClose hn => exact hstaged.afterTerm (.inl rfl) hs
  | stringEnd hn => exact hstaged.afterTerm (.inr rfl) hs
  | final hd => cases hs

theorem Staged.accept (h : s.Staged ops) (hc : c ≠ '\r') (hs : s.accept ops c = some s') :
    s'.Staged ops := by
  rw [Nested.accept] at hs
  split at hs
  · cases hs
    exact h
  · obtain ⟨s₁, hstep, rfl⟩ := Option.map_eq_some_iff.mp hs
    have hstaged : s₁.Staged ops := h.step hc hstep
    exact hstaged

theorem Staged.read {cs : List Char} (h : s.Staged ops) (hcs : ∀ c ∈ cs, c ≠ '\r')
    (hs : s.read ops cs = some s') : s'.Staged ops := by
  induction cs generalizing s with
  | nil =>
    cases hs
    exact h
  | cons c cs ih =>
    obtain ⟨s₁, haccept, hread⟩ := Option.bind_eq_some_iff.mp hs
    rw [List.forall_mem_cons] at hcs
    exact ih (h.accept hcs.1 haccept) hcs.2 hread

end Nested

end Formulary

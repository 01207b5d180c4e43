import Formulary.Proofs.Reader.Reading
import Formulary.Proofs.Reader.Simulation

/-!
# Reading a written document

The reading over nests follows the words of a document along its structure: a term is added to the
innermost row, a value to the innermost entity.

* `Term.reads`, `Formula.reads`: a row grows by the elements of a term or a formula.
* `Entry.reads`, `Binding.reads`: an entity grows by the outline of an entry or a member.
* `Tree.read_written`: every text of a document is read as that document.
-/

namespace Formulary

namespace Nested

variable {s : Nested} {e : OpenEntity} {es : List OpenEntity} {name : Option String} {c : Char}
  {row : List ElementOutline} {parens : Nat} {call : OpenCall} {o : OpenRow}
  {outer : List (OpenCall × OpenRow)} {n : Nest}

/-! ## Marks in a row -/

theorem Settled.step_close (h : s.Settled n) (hc : c = ',' ∨ c = ';' ∨ c = ']' ∨ c = ')') :
    s.step defaultOperators c = (s.flushOperand.leaveExpression c).separate c := by
  obtain ⟨hp, hblank, hm, rfl⟩ := h
  have hops : (defaultOperators.any fun op => [c].isPrefixOf op.toList) = false := by
    rcases hc with rfl | rfl | rfl | rfl <;> decide
  have hparen : c ≠ '(' := by rcases hc with rfl | rfl | rfl | rfl <;> decide
  obtain ⟨p, n, b, token, m⟩ := s
  obtain rfl : b = true := hblank
  cases p with
  | number => simp [step, afterToken, hops, afterValue, hc]
  | numberFraction => simp [step, afterToken, hops, afterValue, hc]
  | identifier => simp [step, afterToken, hops, hparen, afterValue, hc]
  | parenClose => simp [step, afterTerm, hops, afterValue, hc]
  | stringEnd => simp [step, afterTerm, hops, afterValue, hc]
  | _ => cases hp

@[simp] theorem phase_flushOperand (s : Nested) : s.flushOperand.phase = s.phase := by
  rw [flushOperand]
  split <;> rfl

@[simp] theorem memberName_flushOperand (s : Nested) :
    s.flushOperand.memberName = s.memberName := by
  rw [flushOperand]
  split <;> rfl

@[simp] theorem afterBlank_flushOperand (s : Nested) :
    s.flushOperand.afterBlank = s.afterBlank := by
  rw [flushOperand]
  split <;> rfl

/-- No closing parenthesis ends an expression, and no comma ends an argument. -/
theorem Settled.separate_row {f : OpenFormula} (h : s.Settled (.row e es name f))
    (hc : c = ')' ∨ c = ',' ∧ f.outer ≠ []) :
    s.step defaultOperators c = s.flushOperand.separate c := by
  rw [h.step_close (by rcases hc with rfl | ⟨rfl, -⟩ <;> simp)]
  obtain ⟨hp, hblank, hm, hn⟩ := h
  have hends : endsExpression e f c = false := by
    rcases hc with rfl | ⟨rfl, houter⟩
    · simp [endsExpression]
    · obtain ⟨i, outer⟩ := f
      cases outer with
      | nil => exact absurd rfl houter
      | cons co outer => simp [endsExpression, OpenFormula.depth, OpenFormula.outerDepth]
  simp [leaveExpression, hn, hends]

theorem Settled.close_paren (h : s.Settled (.row e es name ⟨⟨row, parens + 1⟩, outer⟩)) :
    s.Reads [.mark ')']
      (Settled · (.row e es name ⟨⟨row ++ [.leaf .symbol ")"], parens⟩, outer⟩)) := by
  have hstep := h.separate_row (.inl rfl)
  obtain ⟨hp, hblank, hm, hn⟩ := h
  simp only [separate, hn] at hstep
  exact .mark rfl hstep rfl ⟨rfl, rfl, by simpa using hm, rfl⟩

theorem Settled.close_call (h : s.Settled (.row e es name ⟨⟨row, 0⟩, (call, o) :: outer⟩)) :
    s.Reads [.mark ')'] (Settled · (.row e es name ⟨⟨o.row ++ [call.outline row], o.parens⟩,
      outer⟩)) := by
  have hstep := h.separate_row (.inl rfl)
  obtain ⟨hp, hblank, hm, hn⟩ := h
  simp only [separate, hn] at hstep
  exact .mark rfl hstep rfl ⟨rfl, rfl, by simpa using hm, rfl⟩

theorem Settled.comma (h : s.Settled (.row e es name ⟨⟨row, 0⟩, (call, o) :: outer⟩)) :
    s.Reads [.mark ','] (ExpectsTerm · (.row e es name
      ⟨⟨[], 0⟩, (⟨call.name, call.done ++ [row]⟩, o) :: outer⟩)) := by
  have hstep := h.separate_row (.inr ⟨rfl, by simp⟩)
  obtain ⟨hp, hblank, hm, hn⟩ := h
  simp only [separate, hn] at hstep
  refine .mark rfl hstep rfl fun c hc => ?_
  refine ⟨_, ?_, ?_, by simp [step, startTerm, hc, placeTerm, enter, hn]; rfl⟩
  · rfl
  · simpa using hm

theorem expectsTerm_parenOpen (e : OpenEntity) (es : List OpenEntity) (name : Option String)
    (f : OpenFormula) (token : String) :
    ExpectsTerm ⟨.parenOpen, .row e es name f, true, token, none⟩ (.row e es name f) := by
  intro c hc
  refine ⟨⟨.parenOpen, .row e es name f, true, token, none⟩, rfl, rfl, ?_⟩
  obtain ⟨i, outer⟩ := f
  cases outer <;> simp [step, startTerm, hc, placeTerm]

theorem ExpectsTerm.open_paren (h : s.ExpectsTerm (.row e es name ⟨⟨row, parens⟩, outer⟩)) :
    s.Reads [.mark '('] (ExpectsTerm · (.row e es name
      ⟨⟨row ++ [.leaf .symbol "("], parens + 1⟩, outer⟩)) := by
  obtain ⟨s₁, hn, hm, hstep⟩ := h '(' rfl
  simp only [beginTerm, hn, if_true] at hstep
  refine .mark rfl hstep rfl ?_
  rw [hm]
  exact expectsTerm_parenOpen e es name _ s₁.token

theorem open_call (function : String) (e : OpenEntity) (es : List OpenEntity)
    (name : Option String) (i : OpenRow) (outer : List (OpenCall × OpenRow)) :
    Reads ⟨.identifier, .row e es name ⟨i, outer⟩, true, function, none⟩ [.mark '(']
      (· = ⟨.callOpen, .row e es name ⟨⟨[], 0⟩, (⟨function, []⟩, i) :: outer⟩, true, "", none⟩) :=
  .mark (r := ⟨.callOpen, .row e es name ⟨⟨[], 0⟩, (⟨function, []⟩, i) :: outer⟩, true, "", none⟩)
    rfl rfl rfl rfl

theorem expectsTerm_callOpen : ExpectsTerm
    ⟨.callOpen, .row e es name ⟨⟨[], 0⟩, (call, o) :: outer⟩, true, "", none⟩
    (.row e es name ⟨⟨[], 0⟩, (call, o) :: outer⟩) := by
  intro c hc
  refine ⟨⟨.callOpen, .row e es name ⟨⟨[], 0⟩, (call, o) :: outer⟩, true, "", none⟩, rfl, rfl, ?_⟩
  simp [step, isTermStart_ne hc, startTerm, hc, placeTerm]

/-- A call without arguments has one empty wrapper. -/
theorem close_callOpen : Reads
    ⟨.callOpen, .row e es name ⟨⟨[], 0⟩, (call, o) :: outer⟩, true, "", none⟩ [.mark ')']
    (Settled · (.row e es name ⟨⟨o.row ++ [call.outline []], o.parens⟩, outer⟩)) :=
  .mark (r := ⟨.parenClose, .row e es name ⟨⟨o.row ++ [call.outline []], o.parens⟩, outer⟩, true,
    "", none⟩) rfl rfl rfl ⟨rfl, rfl, rfl, rfl⟩

end Nested

/-! ## Terms and formulas -/

section Rows

open Nested

mutual

theorem Term.reads : ∀ (t : Term) {s : Nested} {e : OpenEntity} {es : List OpenEntity}
    {name : Option String} {row : List ElementOutline} {parens : Nat}
    {outer : List (OpenCall × OpenRow)}, t.valid defaultOperators →
    s.ExpectsTerm (.row e es name ⟨⟨row, parens⟩, outer⟩) →
    s.Reads t.lexemes (Settled · (.row e es name ⟨⟨row ++ t.row, parens⟩, outer⟩))
  | .number text, s, e, es, name, row, parens, outer, hv, h => by
    rw [Term.valid] at hv
    exact h.number hv
  | .string text, s, e, es, name, row, parens, outer, hv, h => h.string
  | .name text, s, e, es, name, row, parens, outer, hv, h => by
    rw [Term.valid] at hv
    exact (h.name hv).imp fun s' hs' => hs' ▸ ⟨rfl, rfl, rfl, rfl⟩
  | .call function [], s, e, es, name, row, parens, outer, hv, h => by
    rw [Term.valid, Bool.and_eq_true] at hv
    refine (h.name hv.1).cons fun s₁ hs₁ => ?_
    rw [hs₁]
    refine (open_call function e es name ⟨row, parens⟩ outer).cons fun s₂ hs₂ => ?_
    rw [hs₂]
    exact close_callOpen
  | .call function (f :: fs), s, e, es, name, row, parens, outer, hv, h => by
    rw [Term.valid, Bool.and_eq_true] at hv
    refine (h.name hv.1).cons fun s₁ hs₁ => ?_
    rw [hs₁]
    refine (open_call function e es name ⟨row, parens⟩ outer).cons fun s₂ hs₂ => ?_
    rw [hs₂]
    exact Formula.reads_arguments (f :: fs) (by simp) hv.2 expectsTerm_callOpen
  | .paren inside, s, e, es, name, row, parens, outer, hv, h => by
    rw [Term.valid] at hv
    refine h.open_paren.cons fun s₁ hs₁ => (Formula.reads inside hv hs₁).append fun s₂ hs₂ => ?_
    have := hs₂.close_paren
    simpa [Term.row] using this

theorem Formula.reads : ∀ (f : Formula) {s : Nested} {e : OpenEntity} {es : List OpenEntity}
    {name : Option String} {row : List ElementOutline} {parens : Nat}
    {outer : List (OpenCall × OpenRow)}, f.valid defaultOperators →
    s.ExpectsTerm (.row e es name ⟨⟨row, parens⟩, outer⟩) →
    s.Reads f.lexemes (Settled · (.row e es name ⟨⟨row ++ f.row, parens⟩, outer⟩))
  | .term t, s, e, es, name, row, parens, outer, hv, h => by
    rw [Formula.valid] at hv
    exact Term.reads t hv h
  | .operate left operator right, s, e, es, name, row, parens, outer, hv, h => by
    rw [Formula.valid, Bool.and_eq_true, Bool.and_eq_true] at hv
    refine (Formula.reads left hv.1.1 h).append fun s₁ hs₁ =>
      (hs₁.operator hv.1.2).cons fun s₂ hs₂ => ?_
    have := Term.reads right hv.2 hs₂
    simpa [Formula.row, List.append_assoc] using this

theorem Formula.reads_arguments : ∀ (fs : List Formula) {s : Nested} {e : OpenEntity}
    {es : List OpenEntity} {name : Option String} {call : OpenCall} {o : OpenRow}
    {outer : List (OpenCall × OpenRow)}, fs ≠ [] → Formula.allValid defaultOperators fs →
    s.ExpectsTerm (.row e es name ⟨⟨[], 0⟩, (call, o) :: outer⟩) →
    s.Reads (commas (Formula.lexemeLists fs) ++ [.mark ')']) (Settled · (.row e es name
      ⟨⟨o.row ++ [.mk .function call.name ((call.done ++ Formula.rows fs).map
        OpenFormula.wrapper)], o.parens⟩, outer⟩))
  | [], s, e, es, name, call, o, outer, hne, hv, h => absurd rfl hne
  | [f], s, e, es, name, call, o, outer, hne, hv, h => by
    rw [Formula.allValid, Bool.and_eq_true] at hv
    exact (Formula.reads f hv.1 h).append fun s₁ hs₁ => hs₁.close_call
  | f :: g :: fs, s, e, es, name, call, o, outer, hne, hv, h => by
    rw [Formula.allValid, Bool.and_eq_true] at hv
    show s.Reads ((f.lexemes ++ .mark ',' :: commas (Formula.lexemeLists (g :: fs))) ++
      [.mark ')']) _
    rw [List.append_assoc]
    refine (Formula.reads f hv.1 h).append fun s₁ hs₁ => hs₁.comma.cons fun s₂ hs₂ => ?_
    have := Formula.reads_arguments (g :: fs) (by simp) hv.2 hs₂
    simpa [Formula.rows] using this

end

end Rows

/-! ## Values -/

def OpenEntity.Separates : OpenEntity → Char → Prop
  | .sect _ _ _, c => c = ';'
  | .array _ _, c => c = ',' ∨ c = ']'

namespace Nested

variable {s : Nested} {e : OpenEntity} {es : List OpenEntity} {name : Option String} {t : String}
  {b : Bool} {items ms : List EntityOutline} {title : String}

structure ExpectsValue (s : Nested) (e : OpenEntity) (es : List OpenEntity)
    (name : Option String) : Prop where
  phase : s.phase = .memberEquals ∨ s.phase = .arrayOpen ∨ s.phase = .arrayComma
  nest : s.nest = .entity e es
  memberName : s.memberName = name

/-- The state is after a value that is complete in its entity. -/
def Ended (s : Nested) (e : OpenEntity) (es : List OpenEntity) : Prop :=
  ∀ c, e.Separates c → ∃ s₁ : Nested, s₁.nest = .entity e es ∧ s₁.memberName = none ∧
    s.step defaultOperators c = s₁.separate c

/-- The state is where a member or the closing brace belongs. -/
structure InMembers (s : Nested) (e : OpenEntity) (es : List OpenEntity) : Prop where
  phase : s.phase = .sectionOpen ∨ s.phase = .memberEnd
  nest : s.nest = .entity e es
  memberName : s.memberName = none

theorem ExpectsValue.step_eq (h : s.ExpectsValue e es name) {c : Char} (hc : c ≠ ']') :
    s.step defaultOperators c = s.startValue defaultOperators c := by
  rcases h.phase with hp | hp | hp <;> simp [step, hp, hc]

theorem ExpectsValue.term (h : s.ExpectsValue e es name) :
    s.ExpectsTerm (.row e es name OpenFormula.blank) := by
  intro c hc
  obtain ⟨h₁, h₂, h₃, -⟩ := isTermStart_ne hc
  have hop : s.phase ≠ .operator := by rcases h.phase with hp | hp | hp <;> simp [hp]
  refine ⟨{ s with nest := .row e es name OpenFormula.blank, memberName := none }, rfl, rfl, ?_⟩
  rw [h.step_eq h₂]
  simp [startValue, h.nest, h₁, h₃, startTerm, hc, placeTerm, hop, h.memberName]

theorem Settled.ended {row : List ElementOutline}
    (h : s.Settled (.row e es name ⟨⟨row, 0⟩, []⟩)) :
    s.Ended (e.add (.expression name row)) es := by
  intro c hc
  have hclose : c = ',' ∨ c = ';' ∨ c = ']' ∨ c = ')' := by
    cases e with
    | sect => exact .inr (.inl hc)
    | array => exact hc.elim .inl fun hc => .inr (.inr (.inl hc))
  have hends : endsExpression e ⟨⟨row, 0⟩, []⟩ c = true := by
    cases e with
    | sect =>
      obtain rfl : c = ';' := hc
      rfl
    | array => rcases hc with rfl | rfl <;> rfl
  have hstep := h.step_close hclose
  obtain ⟨hp, -, hm, hn⟩ := h
  refine ⟨s.flushOperand.leaveExpression c, ?_, ?_, hstep⟩
  · simp [leaveExpression, hn, hp, hends]
  · rw [memberName_leaveExpression, memberName_flushOperand, hm]

/-! ### Arrays -/

theorem Ended.comma (h : s.Ended (.array name items) es) :
    s.Reads [.mark ','] (ExpectsValue · (.array name items) es none) := by
  obtain ⟨s₁, hn, hm, hstep⟩ := h ',' (.inl rfl)
  simp only [separate, hn] at hstep
  exact .mark rfl hstep rfl ⟨.inr (.inr rfl), hn, hm⟩

theorem ended_arrayClose (e : OpenEntity) (es : List OpenEntity) (b : Bool) (t : String) :
    Ended ⟨.arrayClose, .entity e es, b, t, none⟩ e es := by
  intro c hc
  refine ⟨⟨.arrayClose, .entity e es, b, t, none⟩, rfl, rfl, ?_⟩
  have hclose : c = ',' ∨ c = ';' ∨ c = ']' ∨ c = ')' := by
    cases e with
    | sect => exact .inr (.inl hc)
    | array => exact hc.elim .inl fun hc => .inr (.inr (.inl hc))
  simp [step, afterValue, hclose, flushOperand, leaveExpression]

theorem Ended.close_array (h : s.Ended (.array name items) (e :: es)) :
    s.Reads [.mark ']'] (Ended · (e.add (.array name items)) es) := by
  obtain ⟨s₁, hn, hm, hstep⟩ := h ']' (.inr rfl)
  simp only [separate, hn] at hstep
  refine .mark rfl hstep rfl ?_
  rw [hm]
  exact ended_arrayClose (e.add (.array name items)) es true s₁.token

theorem ExpectsValue.open_array (h : s.ExpectsValue e es name) :
    s.Reads [.mark '['] fun s' =>
      ∃ t, s' = ⟨.arrayOpen, .entity (.array name []) (e :: es), true, t, none⟩ := by
  have hstep := h.step_eq (c := '[') (by decide)
  simp only [startValue, h.nest, h.memberName, if_true] at hstep
  exact .mark rfl hstep rfl ⟨s.token, rfl⟩

theorem expectsValue_arrayOpen :
    ExpectsValue ⟨.arrayOpen, .entity (.array name []) es, true, t, none⟩ (.array name []) es
      none :=
  ⟨.inr (.inl rfl), rfl, rfl⟩

theorem close_arrayOpen :
    Reads ⟨.arrayOpen, .entity (.array name []) (e :: es), true, t, none⟩ [.mark ']']
      (Ended · (e.add (.array name [])) es) :=
  .mark (r := ⟨.arrayClose, .entity (e.add (.array name [])) es, true, t, none⟩) rfl rfl rfl
    (ended_arrayClose (e.add (.array name [])) es true t)

/-! ### Sections -/

theorem Ended.semicolon (h : s.Ended (.sect name (some title) ms) es) :
    s.Reads [.mark ';'] (InMembers · (.sect name (some title) ms) es) := by
  obtain ⟨s₁, hn, hm, hstep⟩ := h ';' rfl
  simp only [separate, hn] at hstep
  exact .mark rfl hstep rfl ⟨.inr rfl, hn, hm⟩

theorem reads_title (ht : isName title.toList) (name : Option String) (es : List OpenEntity)
    (t : String) :
    Reads ⟨.sectionMark, .entity (.sect name none []) es, b, t, none⟩
      [.word title, .mark '{'] (InMembers · (.sect name (some title) []) es) := by
  have htitle : Reads ⟨.sectionMark, .entity (.sect name none []) es, b, t, none⟩ [.word title]
      (· = ⟨.sectionTitle, .entity (.sect name none []) es, true, title, none⟩) := by
    refine .single fun cs hcs => ?_
    cases hcs
    cases htext : title.toList with
    | nil => rw [htext] at ht; cases ht
    | cons c more =>
      rw [htext, isName, Bool.and_eq_true, List.all_eq_true] at ht
      have hstep : step defaultOperators
          ⟨.sectionMark, .entity (.sect name none []) es, b, t, none⟩ c = some
            ⟨.sectionTitle, .entity (.sect name none []) es, b, String.singleton c, none⟩ := by
        simp [step, ht.1, beginToken, enter]
      have hblank := isBlank_of_isNamePart (isNamePart_of_isNameStart ht.1)
      refine ⟨⟨.sectionTitle, .entity (.sect name none []) es, false, title, none⟩, ?_, rfl, rfl⟩
      rw [read, accept_step hblank hstep, Option.bind_some, read_name htext ht.2 (.inr (.inl rfl))]
  refine htitle.cons fun s₁ hs₁ => ?_
  rw [hs₁]
  exact .mark (r := ⟨.sectionOpen, .entity (.sect name (some title) []) es, true, "", none⟩)
    rfl rfl rfl ⟨.inl rfl, rfl, rfl⟩

theorem InMembers.reads_name {member : String} (h : s.InMembers e es)
    (ht : isName member.toList) :
    s.Reads [.word member, .mark '='] (ExpectsValue · e es (some member)) := by
  have hname : s.Reads [.word member] (· = ⟨.memberName, .entity e es, true, member, none⟩) := by
    refine .single fun cs hcs => ?_
    cases hcs
    cases htext : member.toList with
    | nil => rw [htext] at ht; cases ht
    | cons c more =>
      rw [htext, isName, Bool.and_eq_true, List.all_eq_true] at ht
      have hbrace : c ≠ '}' := by rintro rfl; exact absurd ht.1 (by decide)
      have hstep : s.step defaultOperators c =
          some ⟨.memberName, .entity e es, s.afterBlank, String.singleton c, none⟩ := by
        rcases h.phase with hp | hp <;>
          simp [step, hp, startMember, h.nest, hbrace, ht.1, beginToken, enter, h.memberName]
      have hblank := isBlank_of_isNamePart (isNamePart_of_isNameStart ht.1)
      refine ⟨⟨.memberName, .entity e es, false, member, none⟩, ?_, rfl, rfl⟩
      rw [read, accept_step hblank hstep, Option.bind_some, read_name htext ht.2 (.inr (.inr rfl))]
  refine hname.cons fun s₁ hs₁ => ?_
  rw [hs₁]
  exact .mark (r := ⟨.memberEquals, .entity e es, true, "", some member⟩) rfl rfl rfl
    ⟨.inl rfl, rfl, rfl⟩

theorem InMembers.step_close (h : s.InMembers e es) : s.step defaultOperators '}' =
    some ⟨.sectionClose, .close e es, s.afterBlank, s.token, none⟩ := by
  rcases h.phase with hp | hp <;> simp [step, hp, startMember, h.nest, h.memberName]

theorem InMembers.close_section (h : s.InMembers (.sect name (some title) ms) (e :: es)) :
    s.Reads [.mark '}'] (Ended · (e.add (.sect name (some title) ms)) es) := by
  refine .mark rfl h.step_close rfl fun c hc => ?_
  refine ⟨⟨.sectionClose, .entity (e.add (.sect name (some title) ms)) es, true, s.token, none⟩,
    rfl, rfl, ?_⟩
  have hclose : c = ',' ∨ c = ';' ∨ c = ']' ∨ c = ')' := by
    cases e with
    | sect => exact .inr (.inl hc)
    | array => exact hc.elim .inl fun hc => .inr (.inr (.inl hc))
  simp [step, afterSection, Nest.close, afterValue, hclose, flushOperand, leaveExpression,
    OpenEntity.outline]

theorem ExpectsValue.open_section (h : s.ExpectsValue e es name) :
    s.Reads [.mark '#'] fun s' =>
      ∃ t, s' = ⟨.sectionMark, .entity (.sect name none []) (e :: es), true, t, none⟩ := by
  have hstep := h.step_eq (c := '#') (by decide)
  simp only [startValue, h.nest, h.memberName, if_true] at hstep
  exact .mark rfl hstep rfl ⟨s.token, rfl⟩

end Nested

/-! ## Entries and members -/

section Entries

open Nested

mutual

theorem Entry.reads : ∀ (v : Entry) {s : Nested} {e : OpenEntity} {es : List OpenEntity}
    {name : Option String}, v.valid defaultOperators → s.ExpectsValue e es name →
    s.Reads v.lexemes (Ended · (e.add (v.outline name)) es)
  | .sect title members, s, e, es, name, hv, h => by
    rw [Entry.valid, Bool.and_eq_true] at hv
    refine h.open_section.cons fun s₁ ⟨t, hs₁⟩ => ?_
    rw [hs₁]
    refine (reads_title hv.1 name (e :: es) t).append fun s₂ hs₂ => ?_
    refine (Binding.reads_all members hv.2 hs₂).append fun s₃ hs₃ => ?_
    exact hs₃.close_section
  | .array [], s, e, es, name, hv, h => by
    refine h.open_array.cons fun s₁ ⟨t, hs₁⟩ => ?_
    rw [hs₁]
    exact close_arrayOpen
  | .array (v :: vs), s, e, es, name, hv, h => by
    rw [Entry.valid] at hv
    refine h.open_array.cons fun s₁ ⟨t, hs₁⟩ => ?_
    rw [hs₁]
    exact Entry.reads_items (v :: vs) (by simp) hv expectsValue_arrayOpen
  | .formula f, s, e, es, name, hv, h => by
    rw [Entry.valid] at hv
    exact (Formula.reads f hv h.term).imp fun s₁ hs₁ => hs₁.ended

theorem Entry.reads_items : ∀ (vs : List Entry) {s : Nested} {e : OpenEntity}
    {es : List OpenEntity} {name : Option String} {items : List EntityOutline}, vs ≠ [] →
    Entry.allValid defaultOperators vs → s.ExpectsValue (.array name items) (e :: es) none →
    s.Reads (commas (Entry.lexemeLists vs) ++ [.mark ']'])
      (Ended · (e.add (.array name (items ++ Entry.outlines vs))) es)
  | [], s, e, es, name, items, hne, hv, h => absurd rfl hne
  | [v], s, e, es, name, items, hne, hv, h => by
    rw [Entry.allValid, Bool.and_eq_true] at hv
    exact (Entry.reads v hv.1 h).append fun s₁ hs₁ => Ended.close_array hs₁
  | v :: w :: vs, s, e, es, name, items, hne, hv, h => by
    rw [Entry.allValid, Bool.and_eq_true] at hv
    show s.Reads ((v.lexemes ++ .mark ',' :: commas (Entry.lexemeLists (w :: vs))) ++
      [.mark ']']) _
    rw [List.append_assoc]
    refine (Entry.reads v hv.1 h).append fun s₁ hs₁ => (Ended.comma hs₁).cons fun s₂ hs₂ => ?_
    have := Entry.reads_items (w :: vs) (by simp) hv.2 hs₂
    rwa [List.append_assoc] at this

theorem Binding.reads : ∀ (m : Binding) {s : Nested} {es : List OpenEntity}
    {name : Option String} {title : String} {ms : List EntityOutline}, m.valid defaultOperators →
    s.InMembers (.sect name (some title) ms) es →
    s.Reads m.lexemes (InMembers · (.sect name (some title) (ms ++ [m.outline])) es)
  | .mk member v, s, es, name, title, ms, hv, h => by
    rw [Binding.valid, Bool.and_eq_true] at hv
    refine (h.reads_name hv.1).append fun s₁ hs₁ => ?_
    refine (Entry.reads v hv.2 hs₁).append fun s₂ hs₂ => ?_
    exact Ended.semicolon hs₂

theorem Binding.reads_all : ∀ (bs : List Binding) {s : Nested} {es : List OpenEntity}
    {name : Option String} {title : String} {ms : List EntityOutline},
    Binding.allValid defaultOperators bs → s.InMembers (.sect name (some title) ms) es →
    s.Reads (Binding.allLexemes bs)
      (InMembers · (.sect name (some title) (ms ++ Binding.outlines bs)) es)
  | [], s, es, name, title, ms, hv, h => by
    rw [Binding.outlines, List.append_nil]
    exact .nil h
  | m :: bs, s, es, name, title, ms, hv, h => by
    rw [Binding.allValid, Bool.and_eq_true] at hv
    refine (Binding.reads m hv.1 h).append fun s₁ hs₁ => ?_
    have := Binding.reads_all bs hv.2 hs₁
    rwa [List.append_assoc] at this

end

end Entries

/-! ## Documents -/

theorem Document.reads_opening {d : Document} (hd : d.valid defaultOperators) (b : Bool) :
    Nested.Reads ⟨.start, .entity (.sect none none []) [], b, "", none⟩ d.opening
      (Nested.InMembers · (.sect none (some d.title) (Binding.outlines d.members)) []) := by
  rw [Document.valid, Bool.and_eq_true] at hd
  have hmark : Nested.Reads ⟨.start, .entity (.sect none none []) [], b, "", none⟩ [.mark '#']
      (· = ⟨.sectionMark, .entity (.sect none none []) [], true, "", none⟩) :=
    .mark (r := ⟨.sectionMark, .entity (.sect none none []) [], b, "", none⟩) rfl rfl rfl rfl
  refine hmark.cons fun s₁ hs₁ => ?_
  rw [hs₁]
  exact (Nested.reads_title hd.1 none [] "").append fun s₂ hs₂ =>
    Binding.reads_all d.members hd.2 hs₂

/-- The reading over nests goes through every text of a document. -/
theorem Document.Written.read {d : Document} {text : List Char} (h : d.Written text)
    (hd : d.valid defaultOperators) : ∃ s : Nested, s.phase = .final ∧ s.nest = .done d.outline ∧
      Nested.initial.read defaultOperators (Formulary.prepare (String.ofList text)).1 = some s := by
  obtain ⟨before, w, after, after', hbefore, hafter, hafter', hw, hprepare⟩ := h.prepare hd
  obtain ⟨b, hread⟩ := Nested.read_filler (s := Nested.initial) rfl hbefore
  obtain ⟨s, hs, hwords⟩ := Document.reads_opening hd b _ _ hw
  have hbrace : s.accept defaultOperators '}' =
      some ⟨.sectionClose, .done d.outline, false, s.token, none⟩ :=
    Nested.accept_step rfl hs.step_close
  obtain ⟨b', hread'⟩ := Nested.read_filler
    (s := ⟨.sectionClose, .done d.outline, false, s.token, none⟩) rfl hafter
  have hpoint : Nested.accept defaultOperators ⟨.sectionClose, .done d.outline, b', s.token, none⟩
      '.' = some ⟨.final, .done d.outline, false, s.token, none⟩ := rfl
  obtain ⟨b'', hread''⟩ := Nested.read_filler
    (s := ⟨.final, .done d.outline, false, s.token, none⟩) rfl hafter'
  refine ⟨⟨.final, .done d.outline, b'', s.token, none⟩, rfl, rfl, ?_⟩
  have hinitial : Nested.read defaultOperators Nested.initial (before ++ w) = _ :=
    Nested.read_append ..
  rw [hprepare, hinitial, hread, Option.bind_some]
  refine hwords.trans ?_
  rw [Nested.read, hbrace, Option.bind_some, Nested.read_append]
  rw [hread', Option.bind_some, Nested.read, hpoint, Option.bind_some, hread'']

/-- Every text of a document whose parts are well formed is read, and its tree shows the document:
the same sections, arrays and members with the same names in the same order, the same values, and
the same rows of elements. -/
theorem Tree.read_written {d : Document} {text : List Char} (hd : d.valid defaultOperators)
    (h : d.Written text) (filename : Option String) :
    ∃ tree, Tree.read (String.ofList text) defaultOperators filename = .ok tree ∧
      tree.outline = d.outline := by
  obtain ⟨s, hp, hn, hread⟩ := h.read hd
  obtain ⟨tree, hok, hholds⟩ := Tree.read_of_nested filename hread hp hn
  exact ⟨tree, hok, hholds.outline⟩

def Document.sample : Document where
  title := "r"
  members :=
    [.mk "s" (.sect "t" [.mk "b" (.array [.formula (.term (.number "-1.5")), .array []])]),
     .mk "a" (.formula (.operate (.term (.paren (.term (.name "b.c")))) "+"
       (.call "f" [.term (.string "x\"y"), .term (.call "g" [])])))]

theorem Tree.read_sample : Document.sample.valid defaultOperators = true ∧
    Document.sample.Written ("/* sum */".toList ++ Document.sample.write.toList) ∧
    ∃ tree, Tree.read (String.ofList ("/* sum */".toList ++ Document.sample.write.toList))
      defaultOperators none = .ok tree ∧ tree.outline = Document.sample.outline := by
  have hvalid : Document.sample.valid defaultOperators = true := by decide
  have hcomment : Filler "/* sum */".toList :=
    @Filler.comment "/* sum */".toList [] (.inr (@BlockComment.mk " sum ".toList (by decide))) .nil
  have hwritten := Document.sample.written_write hcomment
  exact ⟨hvalid, hwritten, Tree.read_written hvalid hwritten none⟩

end Formulary

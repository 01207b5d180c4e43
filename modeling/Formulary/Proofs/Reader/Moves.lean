import Formulary.Proofs.Reader.Stage
import Formulary.Proofs.Text.Basic

/-!
# What a step opens and closes

A step opens one bracket, closes one, or does neither, and its phase says which.  An expression is
left only where nothing is open in it, by a step that goes on around it.

* `Phase.opens`, `Phase.closes`: the bracket that has been read.
* `OpenFormula.Moves`: what a step does inside an expression.
* `Nest.Moves`: what a step does to a nest.
* `Nested.Staged.moves`: every step is such a move.
-/

namespace Formulary

/-! ## Brackets -/

/-- What is counted while it is open. -/
inductive Bracket where
  | array
  | sect
  | paren
  deriving DecidableEq

namespace Phase

def opens : Phase → Option Bracket
  | arrayOpen => some .array
  | sectionOpen => some .sect
  | parenOpen | callOpen => some .paren
  | _ => none

def closes : Phase → Option Bracket
  | arrayClose => some .array
  | sectionClose => some .sect
  | parenClose => some .paren
  | _ => none

end Phase

def isBrace (c : Char) : Bool := c = '{' || c = '}'

variable {c : Char}

theorem isBrace_iff : isBrace c ↔ c = '{' ∨ c = '}' := by
  rw [isBrace, Bool.or_eq_true, decide_eq_true_eq, decide_eq_true_eq]

theorem isBrace_of_isNamePart (h : isNamePart c) : isBrace c = false := by
  rw [← Bool.not_eq_true, isBrace_iff]
  rintro (rfl | rfl) <;> exact absurd h (by decide)

theorem isBrace_of_isTermStart (h : isTermStart c) : isBrace c = false := by
  rw [← Bool.not_eq_true, isBrace_iff]
  rintro (rfl | rfl) <;> exact absurd h (by decide)

theorem isBrace_of_isBlank (h : isBlank c) : isBrace c = false := by
  rw [← Bool.not_eq_true, isBrace_iff]
  rintro (rfl | rfl) <;> exact absurd h (by decide)

/-! ## Moves -/

inductive OpenFormula.Moves : Phase → OpenFormula → OpenFormula → Prop where
  | within {p : Phase} {f f' : OpenFormula} : p.opens = none → p.closes = none →
      f'.depth = f.depth → Moves p f f'
  | openParen {p : Phase} {f f' : OpenFormula} : p.opens = some .paren → p.closes = none →
      f'.depth = f.depth + 1 → Moves p f f'
  | closeParen {row row' : List ElementOutline} {parens : Nat}
      {outer : List (OpenCall × OpenRow)} :
      Moves .parenClose ⟨⟨row, parens + 1⟩, outer⟩ ⟨⟨row', parens⟩, outer⟩
  | closeCall {row row' : List ElementOutline} {call : OpenCall} {o : OpenRow}
      {outer : List (OpenCall × OpenRow)} :
      Moves .parenClose ⟨⟨row, 0⟩, (call, o) :: outer⟩ ⟨⟨row', o.parens⟩, outer⟩

/-- What a step to a phase does to a nest.  Outside expressions braces are read at sections only. -/
inductive Nest.Moves (c : Char) : Phase → Nest → Nest → Prop where
  | stay {p : Phase} {e : OpenEntity} {es : List OpenEntity} : isBrace c = false →
      p.opens = none → p.closes = none → Moves c p (.entity e es) (.entity e es)
  | openArray {e : OpenEntity} {es : List OpenEntity} {name : Option String} : isBrace c = false →
      Moves c .arrayOpen (.entity e es) (.entity (.array name []) (e :: es))
  | openUntitled {e : OpenEntity} {es : List OpenEntity} {name : Option String} :
      isBrace c = false →
      Moves c .sectionMark (.entity e es) (.entity (.sect name none []) (e :: es))
  | openSection {es : List OpenEntity} {name : Option String} {title : String}
      {ms : List EntityOutline} : c = '{' →
      Moves c .sectionOpen (.entity (.sect name none ms) es)
        (.entity (.sect name (some title) ms) es)
  | closeArray {e : OpenEntity} {es : List OpenEntity} {name : Option String}
      {items : List EntityOutline} : isBrace c = false →
      Moves c .arrayClose (.entity (.array name items) (e :: es))
        (.entity (e.add (.array name items)) es)
  | closeSection {es : List OpenEntity} {name : Option String} {title : String}
      {ms : List EntityOutline} : c = '}' →
      Moves c .sectionClose (.entity (.sect name (some title) ms) es)
        (.close (.sect name (some title) ms) es)
  | row {p : Phase} {e : OpenEntity} {es : List OpenEntity} {name : Option String}
      {f f' : OpenFormula} : f.Moves p f' → Moves c p (.row e es name f) (.row e es name f')
  | enter {p : Phase} {e : OpenEntity} {es : List OpenEntity} {name : Option String}
      {f : OpenFormula} : isBrace c = false → OpenFormula.blank.Moves p f →
      Moves c p (.entity e es) (.row e es name f)
  | leave {p : Phase} {e : OpenEntity} {es : List OpenEntity} {name : Option String}
      {row row' : List ElementOutline} {n : Nest} : isBrace c = false →
      Moves c p (.entity (e.add (.expression name row')) es) n →
      Moves c p (.row e es name ⟨⟨row, 0⟩, []⟩) n
  | final {root : EntityOutline} : isBrace c = false → Moves c .final (.done root) (.done root)

theorem Nest.exists_moves (hc : isBrace c = false) (n : Nest) : ∃ p, Nest.Moves c p n n := by
  cases n with
  | entity e es => exact ⟨.start, .stay hc rfl rfl⟩
  | row e es name f => exact ⟨.start, .row (.within rfl rfl rfl)⟩
  | done root => exact ⟨.final, .final hc⟩

namespace Nested

variable {ops : List String} {s s' : Nested} {e : OpenEntity} {es : List OpenEntity}
  {name : Option String} {f : OpenFormula}

/-! ## The end of a value -/

theorem moves_separate_entity (h : Begun ops (e :: es)) (hn : s.nest = .entity e es)
    (hs : s.separate c = some s') : Nest.Moves c s'.phase (.entity e es) s'.nest := by
  cases e with
  | sect name title ms =>
    simp only [separate, hn] at hs
    split at hs
    · next hc =>
      cases hs
      show Nest.Moves c .memberEnd _ s.nest
      rw [hn, hc]
      exact .stay rfl rfl rfl
    · cases hs
  | array name items =>
    simp only [separate, hn] at hs
    split at hs
    · next hc =>
      cases hs
      show Nest.Moves c .arrayComma _ s.nest
      rw [hn, hc]
      exact .stay rfl rfl rfl
    split at hs
    · next hc =>
      cases hs
      obtain ⟨e, es', rfl⟩ := h.exists_outer
      rw [hc]
      exact .closeArray rfl
    · cases hs

theorem moves_separate_row (hn : s.nest = .row e es name f) (hs : s.separate c = some s') :
    Nest.Moves c s'.phase (.row e es name f) s'.nest := by
  simp only [separate, hn] at hs
  split at hs
  · cases hs
    show Nest.Moves c .callComma _ s.nest
    rw [hn]
    exact .row (.within rfl rfl rfl)
  split at hs
  · obtain ⟨⟨row, parens⟩, outer⟩ := f
    cases parens with
    | succ parens =>
      cases hs
      exact .row .closeParen
    | zero =>
      cases outer with
      | nil => cases hs
      | cons co outer =>
        cases hs
        exact .row .closeCall
  · cases hs

theorem isBrace_of_endsExpression (h : endsExpression e f c) : isBrace c = false := by
  rw [← Bool.not_eq_true, isBrace_iff]
  rintro (rfl | rfl) <;> simp [endsExpression] at h

theorem moves_leave_separate (h : InRow ops (Complete ops) s.nest)
    (hs : (s.leaveExpression c).separate c = some s') : Nest.Moves c s'.phase s.nest s'.nest := by
  have hcases := leaveExpression_cases h c
  obtain ⟨p, n, b, token, m⟩ := s
  obtain ⟨e, es, name, f, rfl⟩ := h.exists_row
  simp only [leaveExpression] at hs hcases
  split at hs
  · next hends =>
    rw [if_pos hends] at hcases
    have hformula := endsExpression_eq ((Bool.and_eq_true _ _).mp hends).2
    rcases hcases with hrow | ⟨e', es', hn, h'⟩
    · cases hrow
    · cases hn
      show Nest.Moves c s'.phase (.row e es name f) s'.nest
      rw [hformula]
      exact .leave (isBrace_of_endsExpression ((Bool.and_eq_true _ _).mp hends).2)
        (moves_separate_entity h' rfl hs)
  · exact moves_separate_row rfl hs

/-- Moves inside an expression do not depend on the elements of its innermost row. -/
theorem moves_of_add {p : Phase} {n : Nest} {row : List ElementOutline}
    (h : Nest.Moves c p (.row e es name (f.add row)) n) :
    Nest.Moves c p (.row e es name f) n := by
  obtain ⟨⟨row₀, parens⟩, outer⟩ := f
  generalize hf : OpenFormula.add ⟨⟨row₀, parens⟩, outer⟩ row = g at h
  cases h with
  | row h =>
    cases h with
    | within hopens hcloses hdepth =>
      subst hf
      exact .row (.within hopens hcloses hdepth)
    | openParen hopens hcloses hdepth =>
      subst hf
      exact .row (.openParen hopens hcloses hdepth)
    | closeParen =>
      cases hf
      exact .row .closeParen
    | closeCall =>
      cases hf
      exact .row .closeCall
  | leave hc h =>
    cases hf
    exact .leave hc h

theorem flushOperand_cases (s : Nested) :
    s.flushOperand = s ∨ ∃ kind, s.flushOperand = s.flush kind := by
  rw [flushOperand]
  split
  · exact .inr ⟨_, rfl⟩
  · exact .inr ⟨_, rfl⟩
  · exact .inr ⟨_, rfl⟩
  · exact .inl rfl

theorem moves_afterValue (h : s.Staged ops) (hp : s.phase.endsOperand)
    (hs : s.afterValue c = some s') : Nest.Moves c s'.phase s.nest s'.nest := by
  have hrow := (h.flushOperand hp).1
  rw [afterValue] at hs
  split at hs
  · have hmoves := moves_leave_separate hrow hs
    rcases s.flushOperand_cases with heq | ⟨kind, heq⟩
    · rwa [heq] at hmoves
    · rw [heq] at hmoves hrow
      obtain ⟨p, n, b, token, m⟩ := s
      cases n with
      | row e es name f => exact moves_of_add hmoves
      | entity e es => cases hrow
      | done root => cases hrow
  · cases hs

theorem moves_afterTerm (h : s.Staged ops) (hp : s.phase.endsOperand)
    (hn : s.nest = .row e es name f) (hs : s.afterTerm ops c = some s') :
    Nest.Moves c s'.phase s.nest s'.nest := by
  rw [afterTerm] at hs
  split at hs
  · cases hs
    show Nest.Moves c .operator s.nest s.nest
    rw [hn]
    exact .row (.within rfl rfl rfl)
  · exact moves_afterValue h hp hs

theorem moves_afterToken {kind : ElementKind} (h : s.Staged ops) (hp : s.phase.endsOperand)
    (hn : s.nest = .row e es name f) (hs : s.afterToken ops kind c = some s') :
    Nest.Moves c s'.phase s.nest s'.nest := by
  rw [afterToken] at hs
  split at hs
  · cases hs
    show Nest.Moves c .operator s.nest (s.nest.addLeaf kind s.token)
    rw [hn]
    exact .row (.within rfl rfl rfl)
  · exact moves_afterValue h hp hs

/-! ## The start of a value -/

theorem moves_beginTerm (hn : s.nest = .row e es name f) (hs : s.beginTerm c = some s') :
    ∃ f', s'.nest = .row e es name f' ∧ s'.phase.closes = none ∧ f.Moves s'.phase f' := by
  obtain ⟨p, n, b, token, m⟩ := s
  obtain rfl : n = _ := hn
  rw [beginTerm] at hs
  split at hs
  · obtain ⟨⟨row, parens⟩, outer⟩ := f
    cases hs
    exact ⟨_, rfl, rfl, .openParen rfl rfl (Nat.add_right_comm ..)⟩
  split at hs
  · cases hs
    exact ⟨_, rfl, rfl, .within rfl rfl rfl⟩
  split at hs
  · cases hs
    exact ⟨_, rfl, rfl, .within rfl rfl rfl⟩
  split at hs
  · cases hs
    exact ⟨_, rfl, rfl, .within rfl rfl rfl⟩
  split at hs
  · cases hs
    exact ⟨_, rfl, rfl, .within rfl rfl rfl⟩
  · cases hs

/-- A move begins where the term is placed, if as much is open there. -/
theorem moves_of_depth {p : Phase} {f₁ f' : OpenFormula} (hf : f₁.Moves p f')
    (hp : p.closes = none) (hdepth : f₁.depth = f.depth) : f.Moves p f' := by
  cases hf with
  | within hopens hcloses h => exact .within hopens hcloses (h.trans hdepth)
  | openParen hopens hcloses h => exact .openParen hopens hcloses (hdepth ▸ h)
  | closeParen => cases hp
  | closeCall => cases hp

/-- The reading is put where a term belongs, and nothing is opened or closed in an expression. -/
theorem placeTerm_row (h : s.Staged ops) (hp : startsTerm s.phase)
    (hn : s.nest = .row e es name f) (hs : s.placeTerm ops = some s') :
    ∃ f', s'.nest = .row e es name f' ∧ f'.depth = f.depth := by
  obtain ⟨p, n, b, token, m⟩ := s
  obtain rfl : n = _ := hn
  cases h with
  | operator hrow =>
    simp only [placeTerm, if_true] at hs
    split at hs
    · cases hs
      exact ⟨_, rfl, rfl⟩
    · cases hs
  | parenOpen hrow =>
    obtain ⟨i, outer⟩ := f
    cases outer with
    | nil => cases hs; exact ⟨_, rfl, rfl⟩
    | cons co outer => cases hs; exact ⟨_, rfl, rfl⟩
  | callOpen h' hb hcalls => cases hs; exact ⟨_, rfl, rfl⟩
  | callComma h' hb hcalls hrow => cases hs; exact ⟨_, rfl, rfl⟩
  | _ => cases hp

theorem moves_startTerm_row (h : s.Staged ops) (hp : startsTerm s.phase)
    (hn : s.nest = .row e es name f) (hs : s.startTerm ops c = some s') :
    Nest.Moves c s'.phase s.nest s'.nest := by
  rw [startTerm] at hs
  split at hs
  · obtain ⟨s₁, hplace, hbegin⟩ := Option.bind_eq_some_iff.mp hs
    obtain ⟨f₁, hn₁, hdepth⟩ := placeTerm_row h hp hn hplace
    obtain ⟨f', hn', hcloses, hmoves⟩ := moves_beginTerm hn₁ hbegin
    rw [hn, hn']
    exact .row (moves_of_depth hmoves hcloses hdepth)
  · cases hs

theorem moves_startTerm_entity (hp : s.phase ≠ .operator) (hn : s.nest = .entity e es)
    (hs : s.startTerm ops c = some s') : Nest.Moves c s'.phase s.nest s'.nest := by
  rw [startTerm] at hs
  split at hs
  · next hc =>
    obtain ⟨s₁, hplace, hbegin⟩ := Option.bind_eq_some_iff.mp hs
    simp only [placeTerm, if_neg hp, hn, Option.some.injEq] at hplace
    subst hplace
    obtain ⟨f', hn', -, hmoves⟩ := moves_beginTerm rfl hbegin
    rw [hn, hn']
    exact .enter (isBrace_of_isTermStart hc) hmoves
  · cases hs

theorem moves_startValue (hp : s.phase ≠ .operator) (hn : s.nest = .entity e es)
    (hs : s.startValue ops c = some s') : Nest.Moves c s'.phase s.nest s'.nest := by
  simp only [startValue, hn] at hs
  split at hs
  · next hc =>
    cases hs
    rw [hn, hc]
    exact .openArray rfl
  split at hs
  · next hc =>
    cases hs
    rw [hn, hc]
    exact .openUntitled rfl
  · exact moves_startTerm_entity hp hn hs

theorem moves_startMember {title : String} {ms : List EntityOutline}
    (hn : s.nest = .entity (.sect name (some title) ms) es) (hs : s.startMember c = some s') :
    Nest.Moves c s'.phase s.nest s'.nest := by
  simp only [startMember, hn] at hs
  split at hs
  · next hc =>
    cases hs
    rw [hn]
    exact .closeSection hc
  split at hs
  · next hc =>
    cases hs
    show Nest.Moves c .memberName s.nest s.nest
    rw [hn]
    exact .stay (isBrace_of_isNamePart (isNamePart_of_isNameStart hc)) rfl rfl
  · cases hs

/-! ## The step -/

variable {n : Nest} {b : Bool} {token : String}

theorem Untitled.exists_entity (h : Untitled ops n) :
    ∃ name es, n = .entity (.sect name none []) es := by
  cases h <;> exact ⟨_, _, rfl⟩

theorem moves_within {P : Nat → List ElementOutline → Prop} {p : Phase} (h : InRow ops P n)
    (hopens : p.opens = none) (hcloses : p.closes = none) : Nest.Moves c p n n := by
  obtain ⟨e, es, name, f, rfl⟩ := h.exists_row
  exact .row (.within hopens hcloses rfl)

theorem moves_title (hn : Untitled ops n)
    (hs : Nested.step ops ⟨.sectionTitle, n, b, token, none⟩ c = some s') :
    Nest.Moves c s'.phase n s'.nest := by
  obtain ⟨name, es, rfl⟩ := Untitled.exists_entity hn
  simp only [Nested.step] at hs
  split at hs
  · next hc =>
    cases hs
    exact .stay (isBrace_of_isNamePart ((Bool.and_eq_true _ _).mp hc).2) rfl rfl
  split at hs
  · next hc =>
    cases hs
    exact .openSection hc
  · cases hs

theorem moves_member
    (hs : Nested.step ops ⟨.memberName, .entity e es, b, token, none⟩ c = some s') :
    Nest.Moves c s'.phase (.entity e es) s'.nest := by
  simp only [Nested.step] at hs
  split at hs
  · next hc =>
    cases hs
    exact .stay (isBrace_of_isNamePart ((Bool.and_eq_true _ _).mp hc).2) rfl rfl
  split at hs
  · next hc =>
    cases hs
    rw [hc]
    exact .stay rfl rfl rfl
  · cases hs

theorem moves_array (h : Begun ops (.array name [] :: es))
    (hs : Nested.step ops ⟨.arrayOpen, .entity (.array name []) es, b, token, none⟩ c = some s') :
    Nest.Moves c s'.phase (.entity (.array name []) es) s'.nest := by
  simp only [Nested.step] at hs
  split at hs
  · next hc =>
    cases hs
    obtain ⟨e, es', rfl⟩ := h.exists_outer
    rw [hc]
    exact .closeArray rfl
  · refine moves_startValue ?_ rfl hs
    intro hp
    cases hp

theorem moves_section (hn : Closed ops n)
    (hs : Nested.step ops ⟨.sectionClose, n, b, token, none⟩ c = some s') :
    Nest.Moves c s'.phase n s'.nest := by
  simp only [Nested.step, afterSection] at hs
  cases hn with
  | inner h' _ => exact moves_separate_entity h' rfl (separate_of_afterValue rfl hs)
  | root hd =>
    simp only at hs
    split at hs
    · next hc =>
      cases hs
      rw [hc]
      exact .final rfl
    · cases hs

theorem moves_string (hn : InRow ops (Expecting ops) n)
    (hs : Nested.step ops ⟨.string, n, b, token, none⟩ c = some s') :
    Nest.Moves c s'.phase n s'.nest := by
  obtain ⟨e, es, name, f, rfl⟩ := hn.exists_row
  simp only [Nested.step] at hs
  split at hs
  · cases hs
    exact .row (.within rfl rfl rfl)
  split at hs
  · cases hs
    exact .row (.within rfl rfl rfl)
  · cases hs
    exact .row (.within rfl rfl rfl)

theorem moves_escape (hn : InRow ops (Expecting ops) n)
    (hs : Nested.step ops ⟨.stringEscape, n, b, token, none⟩ c = some s') :
    Nest.Moves c s'.phase n s'.nest := by
  simp only [Nested.step, unescape] at hs
  split at hs
  · cases hs
    exact moves_within hn rfl rfl
  split at hs
  · cases hs
    exact moves_within hn rfl rfl
  · cases hs

theorem moves_whole (hn : InRow ops (Expecting ops) n) (ht : Whole token.toList)
    (hs : Nested.step ops ⟨.number, n, b, token, none⟩ c = some s') :
    Nest.Moves c s'.phase n s'.nest := by
  have hstaged : Staged ops ⟨.number, n, b, token, none⟩ := .number hn ht
  simp only [Nested.step] at hs
  split at hs
  · cases hs
    exact moves_within hn rfl rfl
  split at hs
  · cases hs
    exact moves_within hn rfl rfl
  · obtain ⟨e, es, name, f, rfl⟩ := hn.exists_row
    exact moves_afterToken hstaged rfl rfl hs

theorem moves_identifier (hn : InRow ops (Expecting ops) n) (ht : isName token.toList)
    (hs : Nested.step ops ⟨.identifier, n, b, token, none⟩ c = some s') :
    Nest.Moves c s'.phase n s'.nest := by
  have hstaged : Staged ops ⟨.identifier, n, b, token, none⟩ := .identifier hn ht
  obtain ⟨e, es, name, ⟨i, outer⟩, rfl⟩ := hn.exists_row
  simp only [Nested.step] at hs
  split at hs
  · cases hs
    exact .row (.within rfl rfl rfl)
  split at hs
  · cases hs
    refine .row (.openParen rfl rfl ?_)
    simp only [OpenFormula.depth, OpenFormula.outerDepth]
    omega
  · exact moves_afterToken hstaged rfl rfl hs

/-- Every step is a move. -/
theorem Staged.moves (h : s.Staged ops) (hs : s.step ops c = some s') :
    Nest.Moves c s'.phase s.nest s'.nest := by
  have hstaged := h
  obtain ⟨p, n, b, token, m⟩ := s
  cases h with
  | start =>
    simp only [Nested.step] at hs
    split at hs
    · next hc =>
      cases hs
      rw [hc]
      exact .stay rfl rfl rfl
    · cases hs
  | sectionMark hn =>
    obtain ⟨name, es, rfl⟩ := Untitled.exists_entity hn
    simp only [Nested.step] at hs
    split at hs
    · next hc =>
      cases hs
      exact .stay (isBrace_of_isNamePart (isNamePart_of_isNameStart hc)) rfl rfl
    · cases hs
  | sectionTitle hn ht => exact moves_title hn hs
  | sectionOpen h' => exact moves_startMember rfl hs
  | memberEnd h' => exact moves_startMember rfl hs
  | memberName h' ht => exact moves_member hs
  | memberEquals h' ht =>
    refine moves_startValue ?_ rfl hs
    intro hp
    cases hp
  | arrayOpen h' => exact moves_array h' hs
  | arrayComma h' =>
    refine moves_startValue ?_ rfl hs
    intro hp
    cases hp
  | sectionClose hn => exact moves_section hn hs
  | arrayClose h' _ => exact moves_separate_entity h' rfl (separate_of_afterValue rfl hs)
  | parenOpen hn =>
    obtain ⟨e, es, name, f, rfl⟩ := hn.exists_row
    exact moves_startTerm_row hstaged rfl rfl hs
  | callComma h' hb hcalls hrow => exact moves_startTerm_row hstaged rfl rfl hs
  | callOpen h' hb hcalls =>
    simp only [Nested.step] at hs
    split at hs
    · exact moves_separate_row rfl (separate_of_afterValue rfl hs)
    · exact moves_startTerm_row hstaged rfl rfl hs
  | string hn ht => exact moves_string hn hs
  | stringEscape hn ht => exact moves_escape hn hs
  | minus hn =>
    simp only [Nested.step] at hs
    split at hs
    · cases hs
      exact moves_within hn rfl rfl
    · cases hs
  | number hn ht => exact moves_whole hn ht hs
  | numberPoint hn ht =>
    simp only [Nested.step] at hs
    split at hs
    · cases hs
      exact moves_within hn rfl rfl
    · cases hs
  | numberFraction hn ht =>
    simp only [Nested.step] at hs
    split at hs
    · cases hs
      exact moves_within hn rfl rfl
    · obtain ⟨e, es, name, f, rfl⟩ := hn.exists_row
      exact moves_afterToken hstaged rfl rfl hs
  | operator hn =>
    simp only [Nested.step] at hs
    split at hs
    · cases hs
      exact moves_within hn rfl rfl
    · obtain ⟨e, es, name, f, rfl⟩ := hn.exists_row
      exact moves_startTerm_row hstaged rfl rfl hs
  | identifier hn ht => exact moves_identifier hn ht hs
  | parenClose hn =>
    obtain ⟨e, es, name, f, rfl⟩ := hn.exists_row
    exact moves_afterTerm hstaged rfl rfl hs
  | stringEnd hn =>
    obtain ⟨e, es, name, f, rfl⟩ := hn.exists_row
    exact moves_afterTerm hstaged rfl rfl hs
  | final hd => cases hs

end Nested

end Formulary

import Formulary.Proofs.Reader.NestBare
import Formulary.Proofs.Reader.Stage

/-!
# What a reading has kept

At every moment the glyphs of the characters that have been read are those of the nest and of the
token that is not in it yet; only a separator after the last value may be missing.

* `Nested.owed`, `Nested.pending`: what is in the nest but not read yet, and the other way round.
* `Nested.Traced`: the glyphs that have been read are those of a state.
* `Nested.Traced.step`, `Nested.Traced.read`: one character preserves it, and so do some of them.
-/

namespace Formulary

/-! ## States -/

namespace Nested

/-- The separators that the nest shows before they are read.  The mark of the root section is one of
them. -/
def owed (s : Nested) : List Glyph :=
  match s.phase with
  | .start => [.char '#']
  | .sectionClose | .arrayClose => s.nest.owed
  | _ => []

/-- What has been read but is not in the nest yet. -/
def pending (s : Nested) : List Glyph :=
  match s.phase with
  | .sectionTitle | .memberName | .minus | .number | .numberPoint | .numberFraction
  | .identifier | .operator => glyphs s.token
  | .memberEquals => EntityOutline.nameBare s.memberName
  | .callComma => [.char ',']
  | .final => [.char '.']
  | _ => []

def scanMode (s : Nested) : ScanMode :=
  match s.phase with
  | .string => .inside s.token
  | .stringEscape => .escaped s.token
  | _ => .outside

structure Traced (scan : Scan) (s : Nested) : Prop where
  mode : scan.mode = s.scanMode
  written : scan.written ++ s.owed = s.nest.bare ++ s.pending

theorem traced_initial : Traced .start initial := ⟨rfl, rfl⟩

variable {ops : List String} {s s' : Nested} {e : OpenEntity} {es : List OpenEntity}
  {name : Option String} {f : OpenFormula} {c : Char} {w : List Glyph}

theorem next_char (hb : isBlank c = false) (hq : c ≠ '"') :
    Scan.next ⟨w, .outside⟩ c = ⟨w ++ [.char c], .outside⟩ := by
  simp [Scan.next, hb, hq]

/-- A character outside strings that does not begin one. -/
theorem Traced.char (hb : isBlank c = false) (hq : c ≠ '"')
    (h : Traced ⟨w ++ [.char c], .outside⟩ s') : Traced (Scan.next ⟨w, .outside⟩ c) s' := by
  rwa [next_char hb hq]

/-! ## The end of a value -/

/-- After a complete value its separator or the end of what is around it is read. -/
theorem Traced.separate_entity (h : w ++ [.char e.separator] = s.nest.bare)
    (hn : s.nest = .entity e es) (hne : e.closed ≠ []) (hs : s.separate c = some s') :
    Traced ⟨w ++ [.char c], .outside⟩ s' := by
  cases e with
  | sect name title ms =>
    simp only [separate, hn] at hs
    split at hs
    · next hc =>
      subst hc
      cases hs
      exact ⟨rfl, by simpa [owed, pending, enter, OpenEntity.separator] using h⟩
    · cases hs
  | array name items =>
    simp only [separate, hn] at hs
    split at hs
    · next hc =>
      subst hc
      cases hs
      exact ⟨rfl, by simpa [owed, pending, enter, OpenEntity.separator] using h⟩
    split at hs
    · next hc =>
      subst hc
      cases hs
      obtain ⟨part, hopen, hclosed⟩ := @OpenEntity.exists_bare_array name items hne
      refine ⟨rfl, ?_⟩
      rw [hn, Nest.bare, Nest.openBare, hopen, ← List.append_assoc] at h
      have hw : w = Nest.openBare es ++ part := List.append_cancel_right h
      simp [owed, pending, Nest.bare_close, hclosed, hw]
    · cases hs

theorem Traced.closeParen (h : w = s.nest.bare) (hn : s.nest = .row e es name f)
    (hs : s.closeParen e es name f = some s') : Traced ⟨w ++ [.char ')'], .outside⟩ s' := by
  obtain ⟨⟨row, parens⟩, outer⟩ := f
  subst h
  cases parens with
  | succ parens =>
    cases hs
    refine ⟨rfl, ?_⟩
    simp [owed, pending, hn, Nest.bare, ElementOutline.leaf, ElementOutline.bare, glyphs]
  | zero =>
    cases outer with
    | nil => cases hs
    | cons co outer =>
      cases hs
      refine ⟨rfl, ?_⟩
      simp [owed, pending, hn, Nest.bare, Nest.outerBare, OpenCall.bare_outline]

theorem Traced.separate_row (h : w = s.nest.bare) (hn : s.nest = .row e es name f)
    (hs : s.separate c = some s') : Traced ⟨w ++ [.char c], .outside⟩ s' := by
  simp only [separate, hn] at hs
  split at hs
  · next hc =>
    obtain ⟨rfl, -, -⟩ := hc
    cases hs
    exact ⟨rfl, by simp [owed, pending, enter, h]⟩
  split at hs
  · next hc =>
    subst hc
    exact closeParen h hn hs
  · cases hs

theorem Traced.leave_separate (h : w = s.nest.bare) (hn : s.nest = .row e es name f)
    (hs : (s.leaveExpression c).separate c = some s') :
    Traced ⟨w ++ [.char c], .outside⟩ s' := by
  rw [leaveExpression, hn] at hs
  simp only at hs
  split at hs
  · next hends =>
    have hf := endsExpression_eq ((Bool.and_eq_true _ _).mp hends).2
    refine separate_entity ?_ rfl (by simp) hs
    rw [h, hn, hf]
    simp [Nest.bare, Nest.openBare, Nest.outerBare, OpenEntity.bare_add, EntityOutline.bare]
  · exact separate_row h hn hs

/-- A number or a name that ends is written where it was pending. -/
theorem Traced.flushOperand (hs : s.Staged ops) (hp : s.phase.endsOperand) :
    s.flushOperand.nest.bare = s.nest.bare ++ s.pending := by
  obtain ⟨p, n, b, token, m⟩ := s
  cases hs with
  | number hn _ | numberFraction hn _ | identifier hn _ =>
    obtain ⟨e, es, name, f, rfl⟩ := hn.exists_row
    exact Nest.bare_addLeaf ..
  | parenClose hn => exact (List.append_nil _).symm
  | stringEnd hn => exact (List.append_nil _).symm
  | _ => cases hp

theorem owed_of_endsOperand (hp : s.phase.endsOperand) : s.owed = [] := by
  obtain ⟨p, n, b, token, m⟩ := s
  cases p <;> first | rfl | cases hp

theorem Traced.afterValue_operand (h : w ++ s.owed = s.nest.bare ++ s.pending) (hs : s.Staged ops)
    (hp : s.phase.endsOperand) (hb : isBlank c = false) (hc : s.afterValue c = some s') :
    Traced (Scan.next ⟨w, .outside⟩ c) s' := by
  rw [afterValue] at hc
  split at hc
  · next hmark =>
    obtain ⟨e, es, name, f, hn⟩ := (hs.flushOperand hp).1.exists_row
    refine Traced.char hb ?_ (leave_separate ?_ hn hc)
    · rintro rfl
      revert hmark
      decide
    · rw [flushOperand hs hp, ← h, owed_of_endsOperand hp, List.append_nil]
  · cases hc

/-- Between a complete section or array and what follows it. -/
theorem Traced.afterValue_entity (h : w ++ [.char e.separator] = s.nest.bare)
    (hn : s.nest = .entity e es) (hne : e.closed ≠ []) (hp : s.phase.endsOperand = false)
    (hb : isBlank c = false) (hs : s.afterValue c = some s') :
    Traced (Scan.next ⟨w, .outside⟩ c) s' := by
  refine Traced.char hb ?_ (separate_entity h hn hne (Nested.separate_of_afterValue hp hs))
  rintro rfl
  cases hs

theorem startsOperator_ne (hops : ∀ op ∈ ops, '"' ∉ op.toList) (cs : List Char)
    (h : ops.any fun op => (cs ++ [c]).isPrefixOf op.toList) : c ≠ '"' := by
  rintro rfl
  obtain ⟨op, hmem, hprefix⟩ := List.any_eq_true.mp h
  have hsub := (List.isPrefixOf_iff_prefix.mp hprefix).subset
  exact hops op hmem (hsub (by simp))

theorem Traced.afterToken {kind : ElementKind} (hops : ∀ op ∈ ops, '"' ∉ op.toList)
    (h : w ++ s.owed = s.nest.bare ++ s.pending) (hs : s.Staged ops) (hp : s.phase.endsOperand)
    (hflush : s.flushOperand.nest = (s.flush kind).nest) (hb : isBlank c = false)
    (hc : s.afterToken ops kind c = some s') : Traced (Scan.next ⟨w, .outside⟩ c) s' := by
  rw [Nested.afterToken] at hc
  split at hc
  · next hop =>
    cases hc
    refine Traced.char hb (startsOperator_ne hops [] hop) ⟨rfl, ?_⟩
    have hbare := flushOperand hs hp
    rw [hflush] at hbare
    rw [owed_of_endsOperand hp, List.append_nil] at h
    simp [owed, pending, enter, Nested.beginToken, hbare, h]
  · exact afterValue_operand h hs hp hb hc

theorem Traced.afterTerm (hops : ∀ op ∈ ops, '"' ∉ op.toList)
    (h : w ++ s.owed = s.nest.bare ++ s.pending) (hs : s.Staged ops)
    (hp : s.phase = .parenClose ∨ s.phase = .stringEnd) (hb : isBlank c = false)
    (hc : s.afterTerm ops c = some s') : Traced (Scan.next ⟨w, .outside⟩ c) s' := by
  rw [Nested.afterTerm] at hc
  split at hc
  · next hop =>
    cases hc
    refine Traced.char hb (startsOperator_ne hops [] hop) ⟨rfl, ?_⟩
    have hw : w = s.nest.bare := by rcases hp with hp | hp <;> simpa [owed, pending, hp] using h
    simp [owed, pending, enter, Nested.beginToken, hw]
  · exact afterValue_operand h hs (by rcases hp with hp | hp <;> rw [hp] <;> rfl) hb hc

/-! ## The start of a value -/

/-- Where a term is placed, all that has been read is in the nest. -/
theorem Traced.placeTerm (h : w ++ s.owed = s.nest.bare ++ s.pending) (hs : s.Staged ops)
    (hp : startsTerm s.phase) (hplace : s.placeTerm ops = some s') : w = s'.nest.bare := by
  obtain ⟨p, n, b, token, m⟩ := s
  cases hs with
  | operator hn =>
    obtain ⟨e, es, name, f, rfl⟩ := hn.exists_row
    simp only [Nested.placeTerm, if_true] at hplace
    split at hplace
    · cases hplace
      rw [flush, Nest.bare_addLeaf, ← List.append_nil w]
      exact h
    · cases hplace
  | @parenOpen _ _ hn =>
    obtain @⟨e, es, name, row, parens, outer, -, -, -, -⟩ := hn
    cases outer <;> cases hplace <;> simpa [owed, pending] using h
  | callOpen _ _ _ =>
    cases hplace
    simpa [owed, pending] using h
  | callComma _ _ _ _ =>
    cases hplace
    simpa [owed, pending, Nest.bare, Nest.outerBare, OpenCall.bare] using h
  | memberEquals _ _ | arrayOpen _ | arrayComma _ =>
    cases hplace
    simpa [owed, pending, Nest.bare, Nest.outerBare, OpenFormula.blank, EntityOutline.nameBare]
      using h
  | _ => cases hp

theorem Traced.beginTerm (h : w = s.nest.bare) (hn : s.nest = .row e es name f)
    (hb : isBlank c = false) (hs : s.beginTerm c = some s') :
    Traced (Scan.next ⟨w, .outside⟩ c) s' := by
  rw [Nested.beginTerm] at hs
  split at hs
  · next hc =>
    subst hc
    obtain ⟨⟨row, parens⟩, outer⟩ := f
    rw [hn] at hs
    cases hs
    refine Traced.char hb (by decide) ⟨rfl, ?_⟩
    simp [owed, pending, h, hn, Nest.bare, ElementOutline.leaf, ElementOutline.bare, glyphs]
  split at hs
  · next hc =>
    subst hc
    cases hs
    exact ⟨rfl, by simp [Scan.next, owed, pending, h]⟩
  · next hquote =>
    refine Traced.char hb hquote ?_
    split at hs
    · cases hs
      exact ⟨rfl, by simp [owed, pending, enter, Nested.beginToken, h]⟩
    split at hs
    · cases hs
      exact ⟨rfl, by simp [owed, pending, enter, Nested.beginToken, h]⟩
    split at hs
    · cases hs
      exact ⟨rfl, by simp [owed, pending, enter, Nested.beginToken, h]⟩
    · cases hs

theorem Traced.startTerm (h : w ++ s.owed = s.nest.bare ++ s.pending) (hs : s.Staged ops)
    (hp : startsTerm s.phase) (hb : isBlank c = false) (hc : s.startTerm ops c = some s') :
    Traced (Scan.next ⟨w, .outside⟩ c) s' := by
  rw [Nested.startTerm] at hc
  split at hc
  · obtain ⟨s₁, hplace, hbegin⟩ := Option.bind_eq_some_iff.mp hc
    obtain ⟨e, es, name, f, hn⟩ := (hs.placeTerm hp hplace).1.exists_row
    exact beginTerm (placeTerm h hs hp hplace) hn hb hbegin
  · cases hc

theorem Traced.startValue (h : w ++ s.owed = s.nest.bare ++ s.pending) (hs : s.Staged ops)
    (hp : startsTerm s.phase) (hn : s.nest = .entity e es)
    (hw : w = s.nest.bare ++ EntityOutline.nameBare s.memberName) (hb : isBlank c = false)
    (hc : s.startValue ops c = some s') : Traced (Scan.next ⟨w, .outside⟩ c) s' := by
  simp only [Nested.startValue, hn] at hc
  split at hc
  · next hmark =>
    subst hmark
    cases hc
    refine Traced.char hb (by decide) ⟨rfl, ?_⟩
    simp [owed, pending, hw, hn, Nest.bare, Nest.openBare, OpenEntity.bare, EntityOutline.bares]
  split at hc
  · next hmark =>
    subst hmark
    cases hc
    refine Traced.char hb (by decide) ⟨rfl, ?_⟩
    simp [owed, pending, hw, hn, Nest.bare, Nest.openBare, OpenEntity.bare, OpenEntity.titleBare,
      EntityOutline.bares]
  · exact startTerm h hs hp hb hc

theorem Traced.startMember {title : String} {ms : List EntityOutline} (h : w = s.nest.bare)
    (hn : s.nest = .entity (.sect name (some title) ms) es) (hb : isBlank c = false)
    (hs : s.startMember c = some s') : Traced (Scan.next ⟨w, .outside⟩ c) s' := by
  simp only [Nested.startMember, hn] at hs
  split at hs
  · next hc =>
    subst hc
    cases hs
    refine Traced.char hb (by decide) ⟨rfl, ?_⟩
    simp [owed, pending, h, hn, Nest.bare_entity, Nest.bare_close, OpenEntity.bare_outline_sect]
  split at hs
  · next hstart =>
    cases hs
    refine Traced.char hb (isNameStart_ne hstart).2.1 ⟨rfl, ?_⟩
    simp [owed, pending, enter, Nested.beginToken, h]
  · cases hs

/-! ## The step -/

variable {n : Nest} {b : Bool} {token : String} {m : Option String}

theorem isNamePart_ne_quote (h : isNamePart c) : c ≠ '"' := by
  rintro rfl
  exact absurd h (by decide)

/-- One more character of a token. -/
theorem Traced.extend {p : Phase} (hb : isBlank c = false) (hq : c ≠ '"')
    (h : w = n.bare ++ glyphs token) (howed : owed ⟨p, n, b, token.push c, m⟩ = [])
    (hpending : pending ⟨p, n, b, token.push c, m⟩ = glyphs (token.push c))
    (hmode : scanMode ⟨p, n, b, token.push c, m⟩ = .outside) :
    Traced (Scan.next ⟨w, .outside⟩ c) ⟨p, n, b, token.push c, m⟩ := by
  refine Traced.char hb hq ⟨hmode.symm, ?_⟩
  rw [howed, hpending, glyphs_push, h]
  simp

theorem Traced.step_title (hn : Untitled ops n) (h : w = n.bare ++ glyphs token)
    (hb : isBlank c = false) (hs : Nested.step ops ⟨.sectionTitle, n, b, token, m⟩ c = some s') :
    Traced (Scan.next ⟨w, .outside⟩ c) s' := by
  simp only [Nested.step] at hs
  split at hs
  · next hpart =>
    cases hs
    exact extend hb (isNamePart_ne_quote ((Bool.and_eq_true _ _).mp hpart).2) h rfl rfl rfl
  split at hs
  · next hbrace =>
    subst hbrace
    subst h
    cases hn with
    | root | inner _ _ =>
      cases hs
      refine Traced.char rfl (by decide) ⟨rfl, ?_⟩
      simp [owed, pending, Nest.bare_entity, OpenEntity.bare, OpenEntity.titleBare,
        EntityOutline.bares]
  · cases hs

theorem Traced.step_member (h : w = n.bare ++ glyphs token) (hb : isBlank c = false)
    (hs : Nested.step ops ⟨.memberName, n, b, token, m⟩ c = some s') :
    Traced (Scan.next ⟨w, .outside⟩ c) s' := by
  simp only [Nested.step] at hs
  split at hs
  · next hpart =>
    cases hs
    exact extend hb (isNamePart_ne_quote ((Bool.and_eq_true _ _).mp hpart).2) h rfl rfl rfl
  split at hs
  · next hequals =>
    subst hequals
    cases hs
    refine Traced.char rfl (by decide) ⟨rfl, ?_⟩
    simp [owed, pending, EntityOutline.nameBare, h]
  · cases hs

/-- A character after the minus or within a number. -/
theorem Traced.step_number {p : Phase} (hops : ∀ op ∈ ops, '"' ∉ op.toList)
    (hp : p = .minus ∨ p = .number ∨ p = .numberPoint ∨ p = .numberFraction)
    (hstaged : Staged ops ⟨p, n, b, token, m⟩) (h : w = n.bare ++ glyphs token)
    (hb : isBlank c = false) (hs : Nested.step ops ⟨p, n, b, token, m⟩ c = some s') :
    Traced (Scan.next ⟨w, .outside⟩ c) s' := by
  have hdigit : ∀ {q : Bool}, (q && c.isDigit) = true → c ≠ '"' := fun h =>
    (isDigit_ne ((Bool.and_eq_true _ _).mp h).2).2.1
  rcases hp with rfl | rfl | rfl | rfl
  · simp only [Nested.step] at hs
    split at hs
    · next hc =>
      cases hs
      exact extend hb (isDigit_ne hc).2.1 h rfl rfl rfl
    · cases hs
  · simp only [Nested.step] at hs
    split at hs
    · next hc =>
      cases hs
      exact extend hb (hdigit hc) h rfl rfl rfl
    split at hs
    · next hc =>
      cases hs
      rw [of_decide_eq_true ((Bool.and_eq_true _ _).mp hc).2]
      exact extend rfl (by decide) h rfl rfl rfl
    · exact afterToken hops (by rw [h]; exact List.append_nil _) hstaged rfl rfl hb hs
  · simp only [Nested.step] at hs
    split at hs
    · next hc =>
      cases hs
      exact extend hb (hdigit hc) h rfl rfl rfl
    · cases hs
  · simp only [Nested.step] at hs
    split at hs
    · next hc =>
      cases hs
      exact extend hb (hdigit hc) h rfl rfl rfl
    · exact afterToken hops (by rw [h]; exact List.append_nil _) hstaged rfl rfl hb hs

theorem Traced.step_operator (hops : ∀ op ∈ ops, '"' ∉ op.toList)
    (hstaged : Staged ops ⟨.operator, n, b, token, m⟩) (h : w = n.bare ++ glyphs token)
    (hb : isBlank c = false) (hs : Nested.step ops ⟨.operator, n, b, token, m⟩ c = some s') :
    Traced (Scan.next ⟨w, .outside⟩ c) s' := by
  simp only [Nested.step] at hs
  split at hs
  · next hc =>
    cases hs
    exact extend hb (startsOperator_ne hops _ ((Bool.and_eq_true _ _).mp hc).2) h rfl rfl rfl
  · exact startTerm (by rw [h]; exact List.append_nil _) hstaged rfl hb hs

theorem Traced.step_identifier (hops : ∀ op ∈ ops, '"' ∉ op.toList)
    (hstaged : Staged ops ⟨.identifier, n, b, token, m⟩) (hn : n = .row e es name f)
    (h : w = n.bare ++ glyphs token) (hb : isBlank c = false)
    (hs : Nested.step ops ⟨.identifier, n, b, token, m⟩ c = some s') :
    Traced (Scan.next ⟨w, .outside⟩ c) s' := by
  simp only [Nested.step] at hs
  split at hs
  · next hpart =>
    cases hs
    exact extend hb (isNamePart_ne_quote ((Bool.and_eq_true _ _).mp hpart).2) h rfl rfl rfl
  split at hs
  · next hparen =>
    subst hparen
    subst hn
    cases hs
    refine Traced.char rfl (by decide) ⟨rfl, ?_⟩
    simp [owed, pending, h, Nest.bare, Nest.outerBare, OpenCall.bare]
  · exact afterToken hops (by rw [h]; exact List.append_nil _) hstaged rfl rfl hb hs

/-- A character of a string. -/
theorem Traced.step_string (hn : n = .row e es name f) (h : w = n.bare)
    (hs : Nested.step ops ⟨.string, n, b, token, m⟩ c = some s') :
    Traced (Scan.next ⟨w, .inside token⟩ c) s' := by
  simp only [Nested.step] at hs
  split at hs
  · next hc =>
    subst hc
    cases hs
    exact ⟨rfl, by simp [Scan.next, owed, pending, enter, h]⟩
  split at hs
  · next hc =>
    subst hc
    subst hn
    cases hs
    refine ⟨rfl, ?_⟩
    simp [Scan.next, owed, pending, enter, flush, Nest.bare_addLeaf, h, ElementOutline.leaf,
      ElementOutline.bare]
  · next hslash hquote =>
    cases hs
    refine ⟨?_, ?_⟩
    · simp [Scan.next, hslash, hquote, scanMode, Nested.extendToken]
    · simp [Scan.next, hslash, hquote, owed, pending, Nested.extendToken, h]

theorem Traced.step_escape (h : w = n.bare)
    (hs : Nested.step ops ⟨.stringEscape, n, b, token, m⟩ c = some s') :
    Traced (Scan.next ⟨w, .escaped token⟩ c) s' := by
  simp only [Nested.step, unescape] at hs
  split at hs
  · next hc =>
    cases hs
    refine ⟨?_, by simp [Scan.next, owed, pending, enter, Nested.extendToken, h]⟩
    rcases hc with rfl | rfl <;> rfl
  split at hs
  · next hc =>
    subst hc
    cases hs
    exact ⟨rfl, by simp [Scan.next, owed, pending, enter, Nested.extendToken, h]⟩
  · cases hs

/-- Where no separator is owed, all that has been read is in the nest or pending. -/
theorem Traced.all_read (howed : s.owed = []) (h : w ++ s.owed = s.nest.bare ++ s.pending) :
    w = s.nest.bare ++ s.pending := by
  rwa [howed, List.append_nil] at h

/-- Where also nothing is pending. -/
theorem Traced.all_in_nest (howed : s.owed = []) (hpending : s.pending = [])
    (h : w ++ s.owed = s.nest.bare ++ s.pending) : w = s.nest.bare := by
  rwa [howed, hpending, List.append_nil, List.append_nil] at h

/-- One character preserves that the glyphs are those of the state. -/
theorem Traced.step {scan : Scan} (hops : ∀ op ∈ ops, '"' ∉ op.toList) (h : Traced scan s)
    (hs : s.Staged ops) (hb : s.phase.inString = false → isBlank c = false)
    (hc : s.step ops c = some s') : Traced (scan.next c) s' := by
  have hstaged := hs
  obtain ⟨p, n, b, token, m⟩ := s
  obtain ⟨w, mode⟩ := scan
  obtain ⟨rfl, hw⟩ := h
  cases hs with
  | start =>
    simp only [Nested.step] at hc
    split at hc
    · next hmark =>
      subst hmark
      cases hc
      exact Traced.char rfl (by decide) ⟨rfl, by simpa [owed, pending, enter] using hw⟩
    · cases hc
  | sectionMark hn =>
    simp only [Nested.step] at hc
    split at hc
    · next hstart =>
      cases hc
      have hw : w = n.bare := all_in_nest rfl rfl hw
      refine Traced.char (hb rfl) (isNameStart_ne hstart).2.1 ⟨rfl, ?_⟩
      simp [owed, pending, enter, Nested.beginToken, hw]
    · cases hc
  | sectionTitle hn ht => exact step_title hn (all_read rfl hw) (hb rfl) hc
  | sectionOpen h' | memberEnd h' => exact startMember (all_in_nest rfl rfl hw) rfl (hb rfl) hc
  | memberName h' ht => exact step_member (all_read rfl hw) (hb rfl) hc
  | memberEquals h' ht => exact startValue hw hstaged rfl rfl (all_read rfl hw) (hb rfl) hc
  | arrayOpen h' =>
    simp only [Nested.step] at hc
    split at hc
    · next hbracket =>
      subst hbracket
      cases hc
      have hw : w = Nest.bare _ := all_in_nest rfl rfl hw
      refine Traced.char rfl (by decide) ⟨rfl, ?_⟩
      simp [owed, pending, hw, Nest.bare_entity, Nest.bare_close, OpenEntity.bare,
        OpenEntity.outline, EntityOutline.bare, EntityOutline.bares, joined]
    · exact startValue hw hstaged rfl rfl (all_read rfl hw) (hb rfl) hc
  | arrayComma h' => exact startValue hw hstaged rfl rfl (all_read rfl hw) (hb rfl) hc
  | sectionClose hn =>
    simp only [Nested.step, afterSection] at hc
    cases hn with
    | inner h' hne =>
      have hw : w ++ [.char _] = _ := hw.trans (List.append_nil _)
      exact afterValue_entity hw rfl hne rfl (hb rfl) hc
    | root hd =>
      simp only at hc
      split at hc
      · next hpoint =>
        subst hpoint
        cases hc
        have hw : w = Nest.bare _ := all_in_nest rfl rfl hw
        refine Traced.char rfl (by decide) ⟨rfl, ?_⟩
        simp [owed, pending, enter, hw]
      · cases hc
  | arrayClose h' hne =>
    have hw : w ++ [.char _] = _ := hw.trans (List.append_nil _)
    exact afterValue_entity hw rfl hne rfl (hb rfl) hc
  | parenOpen hn => exact startTerm hw hstaged rfl (hb rfl) hc
  | callComma h' hbinds hcalls hrow => exact startTerm hw hstaged rfl (hb rfl) hc
  | callOpen h' hbinds hcalls =>
    simp only [Nested.step] at hc
    split at hc
    · next hparen =>
      subst hparen
      refine Traced.char rfl (by decide) (separate_row (all_in_nest rfl rfl hw) rfl ?_)
      exact hc
    · exact startTerm hw hstaged rfl (hb rfl) hc
  | string hn ht =>
    obtain ⟨e, es, name, f, hrow⟩ := hn.exists_row
    exact step_string hrow (all_in_nest rfl rfl hw) hc
  | stringEscape hn ht => exact step_escape (all_in_nest rfl rfl hw) hc
  | minus hn => exact step_number hops (.inl rfl) hstaged (all_read rfl hw) (hb rfl) hc
  | number hn ht =>
    exact step_number hops (.inr (.inl rfl)) hstaged (all_read rfl hw) (hb rfl) hc
  | numberPoint hn ht =>
    exact step_number hops (.inr (.inr (.inl rfl))) hstaged (all_read rfl hw) (hb rfl) hc
  | numberFraction hn ht =>
    exact step_number hops (.inr (.inr (.inr rfl))) hstaged (all_read rfl hw) (hb rfl) hc
  | operator hn => exact step_operator hops hstaged (all_read rfl hw) (hb rfl) hc
  | identifier hn ht =>
    obtain ⟨e, es, name, f, hrow⟩ := hn.exists_row
    exact step_identifier hops hstaged hrow (all_read rfl hw) (hb rfl) hc
  | parenClose hn => exact afterTerm hops hw hstaged (.inl rfl) (hb rfl) hc
  | stringEnd hn => exact afterTerm hops hw hstaged (.inr rfl) (hb rfl) hc
  | final hd => cases hc

/-! ## Runs -/

theorem Traced.accept {scan : Scan} (hops : ∀ op ∈ ops, '"' ∉ op.toList) (h : Traced scan s)
    (hs : s.Staged ops) (hc : s.accept ops c = some s') : Traced (scan.next c) s' := by
  rw [Nested.accept] at hc
  split at hc
  · next hskip =>
    cases hc
    rw [Bool.and_eq_true, Bool.not_eq_true'] at hskip
    obtain ⟨hout, hblank⟩ := hskip
    have hmode : scan.mode = .outside := by
      rw [h.mode, scanMode]
      split
      · next hp => rw [hp] at hout; cases hout
      · next hp => rw [hp] at hout; cases hout
      · rfl
    have hquote : c ≠ '"' := by
      rintro rfl
      cases hblank
    have hnext : scan.next c = scan := by simp [Scan.next, hmode, hquote, hblank]
    rw [hnext]
    exact ⟨h.mode, h.written⟩
  · next hkeep =>
    obtain ⟨s₁, hstep, rfl⟩ := Option.map_eq_some_iff.mp hc
    have hblank : s.phase.inString = false → isBlank c = false := by
      intro hout
      simpa [hout] using hkeep
    have htraced := h.step hops hs hblank hstep
    exact ⟨htraced.mode, htraced.written⟩

/-- The glyphs of the characters that have been read are those of the state. -/
theorem Traced.read {scan : Scan} {cs : List Char} (hops : ∀ op ∈ ops, '"' ∉ op.toList)
    (h : Traced scan s) (hs : s.Staged ops) (hcs : ∀ c ∈ cs, c ≠ '\r')
    (hr : s.read ops cs = some s') : Traced (cs.foldl Scan.next scan) s' := by
  induction cs generalizing s scan with
  | nil =>
    cases hr
    exact h
  | cons c cs ih =>
    obtain ⟨s₁, haccept, hread⟩ := Option.bind_eq_some_iff.mp hr
    rw [List.forall_mem_cons] at hcs
    exact ih (h.accept hops hs haccept) (hs.accept hcs.1 haccept) hcs.2 hread

end Nested

end Formulary

import Formulary.Proofs.Text.Basic
import Formulary.Proofs.Tree.Marks
import Formulary.Reader.Basic

/-!
# The runs of a reading

A run accepts characters one after the other until one fails or none is left.  The cursor moves over
the text with it, whatever the steps do.

* `Reader.Outcome`: what holds of the state after a step, or of its failure.
* `Reader.cursor_step`: a step keeps the cursor, or fails in one of three ways.
* `Reader.quotes_step`: no string begins in a step but at the cursor.
* `Reader.Reaches`: the states of a run; `Reader.run_cases`: how a run ends.
* `Reader.Reaches.before`: the cursor moves over the text line by line.
* `Reader.Reaches.marks`: elements stay in the tree.
-/

namespace Formulary

namespace Reader

/-! ## Outcomes -/

/-- What holds of the state after a step, or of its failure. -/
def Outcome (P : Reader → Prop) (Q : ParseError → Prop) : Except ParseError Reader → Prop
  | .ok r => P r
  | .error e => Q e

variable {P P' : Reader → Prop} {Q Q' : ParseError → Prop} {x y : Except ParseError Reader}
  {r r' : Reader} {c : Char}

theorem Outcome.ite {p : Prop} [Decidable p] (ht : p → Outcome P Q x) (hf : ¬ p → Outcome P Q y) :
    Outcome P Q (if p then x else y) := by
  split
  · next h => exact ht h
  · next h => exact hf h

theorem Outcome.bind {f : Reader → Except ParseError Reader} (h : Outcome P' Q x)
    (hf : ∀ r, P' r → Outcome P Q (f r)) : Outcome P Q (x >>= f) := by
  cases x with
  | ok r => exact hf r h
  | error e => exact h

theorem Outcome.imp (h : Outcome P Q x) (hp : ∀ r, P r → P' r) (hq : ∀ e, Q e → Q' e) :
    Outcome P' Q' x := by
  cases x with
  | ok r => exact hp r h
  | error e => exact hq e h

/-! ## What moves keep -/

/-- Most elementary changes keep the cursor and the elements, and add no string. -/
structure Retains (r' r : Reader) : Prop where
  cursor : r'.cursor = r.cursor
  strings : r'.tree.strings = r.tree.strings
  marks : r.tree.elementMarks <+: r'.tree.elementMarks

theorem Retains.refl (r : Reader) : r.Retains r := ⟨rfl, rfl, List.prefix_rfl⟩

theorem Retains.trans {r'' : Reader} (h : r''.Retains r') (h' : r'.Retains r) : r''.Retains r :=
  ⟨h.cursor.trans h'.cursor, h.strings.trans h'.strings, h'.marks.trans h.marks⟩

theorem Retains.of_eq (hcursor : r'.cursor = r.cursor)
    (hmarks : r'.tree.elementMarks = r.tree.elementMarks) : r'.Retains r :=
  ⟨hcursor, Tree.strings_of_eq hmarks, hmarks ▸ List.prefix_rfl⟩

theorem retains_addElement {kind : ElementKind} (hkind : kind ≠ .string) (text : String)
    (position : Position) : (r.addElement kind text position).Retains r := by
  rw [addElement]
  split
  · exact ⟨rfl, Tree.strings_addElement hkind .., by simp⟩
  · exact .refl r

theorem retains_flush {kind : ElementKind} (hkind : kind ≠ .string) : (r.flush kind).Retains r :=
  have h := retains_addElement (r := r) hkind r.token r.tokenStart
  ⟨h.cursor, h.strings, h.marks⟩

theorem retains_beginToken (c : Char) : (r.beginToken c).Retains r := .of_eq rfl rfl

theorem retains_extendToken (c : Char) : (r.extendToken c).Retains r := .of_eq rfl rfl

theorem retains_openEntity (content : Content) : (r.openEntity content).Retains r :=
  .of_eq rfl rfl

theorem retains_openArray : r.openArray.Retains r := .of_eq rfl rfl

theorem retains_openSection : r.openSection.Retains r := .of_eq rfl rfl

theorem retains_leave : r.leave.Retains r := by
  rw [leave]
  split <;> exact .of_eq rfl rfl

theorem retains_closeArray : r.closeArray.Retains r :=
  ⟨retains_leave.cursor, retains_leave.strings, retains_leave.marks⟩

theorem retains_closeSection : r.closeSection.Retains r :=
  ⟨retains_leave.cursor, retains_leave.strings, retains_leave.marks⟩

theorem retains_openExpression : r.openExpression.Retains r :=
  ⟨rfl, Tree.strings_addExpression .., by simp [openExpression]⟩

theorem retains_adjustParens (id : ElementId) (f : Nat → Nat) : (r.adjustParens id f).Retains r :=
  .of_eq rfl (Tree.elementMarks_modifyElement fun _ => rfl)

theorem retains_openParen : r.openParen.Retains r := by
  rw [openParen]
  split
  · exact (retains_addElement (by decide) ..).trans (retains_adjustParens ..)
  · exact .refl r

theorem retains_closeParen : r.closeParen.Retains r := by
  rw [closeParen]
  split
  · exact (retains_adjustParens ..).trans (retains_addElement (by decide) ..)
  · exact .refl r

theorem retains_openCall : r.openCall.Retains r := by
  rw [openCall]
  split
  · next id _ =>
    have h : ((r.adjustParens id (· + 1)).flush .function).Retains r :=
      (retains_flush (by decide)).trans (retains_adjustParens ..)
    exact ⟨h.cursor, (Tree.strings_addElement (by decide) ..).trans h.strings,
      h.marks.trans (by simp)⟩
  · exact .refl r

theorem retains_nextArgument : r.nextArgument.Retains r := by
  rw [nextArgument]
  split
  · exact ⟨rfl, Tree.strings_addElement (by decide) .., by simp⟩
  · exact .refl r

theorem retains_closeCall : r.closeCall.Retains r := by
  rw [closeCall]
  split
  · next outer _ =>
    exact (retains_adjustParens (r := { r with element := some outer }) ..).trans (.of_eq rfl rfl)
  · exact .refl r

theorem retains_flushOperand : r.flushOperand.Retains r := by
  rw [flushOperand]
  split
  · exact retains_flush (by decide)
  · exact retains_flush (by decide)
  · exact retains_flush (by decide)
  · exact .refl r

theorem retains_leaveExpression : (r.leaveExpression c).Retains r := by
  rw [leaveExpression]
  split
  · exact retains_leave
  · exact .refl r

/-! ## Steps -/

inductive Fails (r : Reader) (c : Char) : ParseError → Prop
  | unexpected : Fails r c ⟨.unexpected c, r.cursor⟩
  | badEscape : r.phase = .stringEscape → Fails r c ⟨.badEscape c, r.cursor⟩
  | unknownOperator : r.phase = .operator →
      Fails r c ⟨.unknownOperator r.token r.operators c, r.tokenStart⟩

/-- Outside strings, the cursor and the strings stay, perhaps with a string that begins at the
cursor, or the step fails. -/
def Stays (r : Reader) (c : Char) : Except ParseError Reader → Prop :=
  Outcome (fun r' => r'.Retains r ∧ (r'.phase.inString → r'.tokenStart = r.cursor)) (r.Fails c)

theorem stays_reject (h : r'.cursor = r.cursor) : r.Stays c (r'.reject c) := by
  rw [reject, h]
  exact .unexpected

theorem stays_ite {p : Prop} [Decidable p] (ht : p → r.Stays c x) (hf : ¬ p → r.Stays c y) :
    r.Stays c (if p then x else y) := Outcome.ite ht hf

/-- A phase outside strings is entered. -/
theorem stays_enter {p : Phase} (h : r'.Retains r) (hp : p.inString = false) :
    r.Stays c (.ok (r'.enter p)) :=
  ⟨⟨h.cursor, h.strings, h.marks⟩, fun hstring => by
    have hstring : p.inString := hstring
    rw [hp] at hstring
    cases hstring⟩

/-- The token goes on outside strings. -/
theorem stays_extend (hstring : r.phase.inString = false) : r.Stays c (.ok (r.extendToken c)) := by
  have h : r.Stays c (.ok ((r.extendToken c).enter r.phase)) :=
    stays_enter (retains_extendToken c) hstring
  exact h

theorem stays_separate (h : r'.Retains r) : r.Stays c (r'.separate c) := by
  rw [separate]
  split
  · exact stays_ite (fun _ => stays_enter h rfl) fun _ => stays_reject h.cursor
  · exact stays_ite (fun _ => stays_enter h rfl) fun _ =>
      stays_ite (fun _ => stays_enter (retains_closeArray.trans h) rfl) fun _ =>
        stays_reject h.cursor
  · exact stays_ite (fun _ => stays_enter h rfl) fun _ =>
      stays_ite (fun _ => stays_enter (retains_closeParen.trans h) rfl) fun _ =>
        stays_ite (fun _ => stays_enter (retains_closeCall.trans h) rfl) fun _ =>
          stays_reject h.cursor

theorem stays_afterValue : r.Stays c (r.afterValue c) :=
  stays_ite (fun _ => stays_separate (retains_leaveExpression.trans retains_flushOperand))
    fun _ => stays_reject rfl

theorem stays_afterTerm : r.Stays c (r.afterTerm c) :=
  stays_ite (fun _ => stays_enter (retains_beginToken c) rfl) fun _ => stays_afterValue

theorem stays_afterToken {kind : ElementKind} (hkind : kind ≠ .string) :
    r.Stays c (r.afterToken kind c) :=
  stays_ite (fun _ => stays_enter ((retains_beginToken c).trans (retains_flush hkind)) rfl)
    fun _ => stays_afterValue

/-- The reading is put where a term belongs, or fails. -/
theorem retains_placeTerm :
    Outcome (fun r' => r'.Retains r) (r.Fails c) (r.placeTerm c) := by
  rw [placeTerm]
  split
  · next h => exact Outcome.ite (fun _ => retains_flush (by decide)) fun _ => .unknownOperator h
  · have hopen : (if r.entity.content.isExpression then r else r.openExpression).Retains r := by
      split
      · exact .refl r
      · exact retains_openExpression
    show Retains _ r
    split
    · exact retains_nextArgument.trans hopen
    · exact hopen

theorem stays_beginTerm (h : r'.Retains r) : r.Stays c (r'.beginTerm c) := by
  refine stays_ite (fun _ => stays_enter (retains_openParen.trans h) rfl) fun _ =>
    stays_ite (fun _ => ?_) fun _ => stays_ite (fun _ => ?_) fun _ => stays_ite (fun _ => ?_)
      fun _ => stays_ite (fun _ => ?_) fun _ => stays_reject h.cursor
  · exact ⟨⟨h.cursor, h.strings, h.marks⟩, fun _ => h.cursor⟩
  all_goals exact stays_enter ((retains_beginToken c).trans h) rfl

theorem stays_startTerm : r.Stays c (r.startTerm c) :=
  stays_ite (fun _ => Outcome.bind retains_placeTerm fun _ h => stays_beginTerm h) fun _ =>
    stays_reject rfl

theorem stays_startValue : r.Stays c (r.startValue c) :=
  stays_ite (fun _ => stays_enter retains_openArray rfl) fun _ =>
    stays_ite (fun _ => stays_enter (retains_openEntity _) rfl) fun _ =>
      stays_startTerm

theorem stays_startMember : r.Stays c (r.startMember c) :=
  stays_ite (fun _ => stays_enter retains_closeSection rfl) fun _ =>
    stays_ite (fun _ => stays_enter (retains_beginToken c) rfl) fun _ => stays_reject rfl

theorem stays_afterSection : r.Stays c (r.afterSection c) :=
  stays_ite (fun _ => stays_ite (fun _ => stays_enter (.refl r) rfl) fun _ => stays_reject rfl)
    fun _ => stays_afterValue

/-- A step outside strings. -/
theorem stays_step (hstring : r.phase.inString = false) : r.Stays c (r.step c) := by
  rw [step]
  cases h : r.phase with
  | start =>
    exact stays_ite (fun _ => ⟨.of_eq rfl rfl, fun h => nomatch h⟩) fun _ => stays_reject rfl
  | sectionMark =>
    exact stays_ite (fun _ => stays_enter (retains_beginToken c) rfl) fun _ =>
      stays_reject rfl
  | sectionTitle =>
    exact stays_ite (fun _ => stays_extend hstring) fun _ =>
      stays_ite (fun _ => stays_enter retains_openSection rfl) fun _ =>
        stays_reject rfl
  | memberName =>
    exact stays_ite (fun _ => stays_extend hstring) fun _ =>
      stays_ite (fun _ => ⟨.of_eq rfl rfl, fun h => nomatch h⟩) fun _ => stays_reject rfl
  | sectionOpen | memberEnd => exact stays_startMember
  | sectionClose => exact stays_afterSection
  | memberEquals | arrayComma => exact stays_startValue
  | arrayOpen =>
    exact stays_ite (fun _ => stays_enter retains_closeArray rfl) fun _ => stays_startValue
  | arrayClose => exact stays_afterValue
  | parenOpen | callComma => exact stays_startTerm
  | parenClose | stringEnd => exact stays_afterTerm
  | string | stringEscape =>
    rw [h] at hstring
    cases hstring
  | minus | numberPoint =>
    exact stays_ite (fun _ => stays_enter (retains_extendToken c) rfl) fun _ =>
      stays_reject rfl
  | number =>
    exact stays_ite (fun _ => stays_extend hstring) fun _ =>
      stays_ite (fun _ => stays_enter (retains_extendToken c) rfl) fun _ =>
        stays_afterToken (by decide)
  | numberFraction =>
    exact stays_ite (fun _ => stays_extend hstring) fun _ => stays_afterToken (by decide)
  | operator => exact stays_ite (fun _ => stays_extend hstring) fun _ => stays_startTerm
  | identifier =>
    exact stays_ite (fun _ => stays_extend hstring) fun _ =>
      stays_ite (fun _ => stays_enter retains_openCall rfl) fun _ => stays_afterToken (by decide)
  | callOpen => exact stays_ite (fun _ => stays_afterValue) fun _ => stays_startTerm
  | final => exact stays_reject rfl

/-- A step keeps the cursor, or fails in one of three ways. -/
theorem cursor_step : Outcome (fun r' => r'.cursor = r.cursor) (r.Fails c) (r.step c) := by
  cases hstring : r.phase.inString with
  | false => exact Outcome.imp (stays_step hstring) (fun _ h => h.1.cursor) fun _ h => h
  | true =>
    rw [step]
    cases h : r.phase with
    | string =>
      refine Outcome.ite (fun _ => rfl) fun _ => Outcome.ite (fun _ => ?_) fun _ => rfl
      show (r.addElement ..).cursor = r.cursor
      rw [addElement]
      split <;> rfl
    | stringEscape =>
      exact Outcome.ite (fun _ => rfl) fun _ => Outcome.ite (fun _ => rfl) fun _ => .badEscape h
    | _ =>
      rw [h] at hstring
      cases hstring

/-! ## Strings -/

def quotes (r : Reader) : List Position :=
  r.tree.strings ++ if r.phase.inString then [r.tokenStart] else []

def Quotes (r r' : Reader) (p : Position) : Prop :=
  r'.quotes = r.quotes ∨ r'.quotes = r.quotes ++ [p]

/-- A string that is under way goes on or becomes an element. -/
theorem quotes_step_inString (hstring : r.phase.inString) (helement : r.element ≠ none) :
    Outcome (fun r' => r'.quotes = r.quotes) (fun _ => True) (r.step c) := by
  have hquotes : r.quotes = r.tree.strings ++ [r.tokenStart] := by rw [quotes, if_pos hstring]
  rw [step]
  cases h : r.phase with
  | string =>
    refine Outcome.ite (fun _ => hquotes.symm) fun _ => Outcome.ite (fun _ => ?_) fun _ => rfl
    obtain ⟨id, hid⟩ := Option.ne_none_iff_exists'.mp helement
    show Tree.strings (r.addElement ..).tree ++ [] = _
    simp only [addElement, hid, Tree.strings_addString, List.append_nil, hquotes]
  | stringEscape =>
    exact Outcome.ite (fun _ => hquotes.symm) fun _ => Outcome.ite (fun _ => hquotes.symm)
      fun _ => trivial
  | _ =>
    rw [h] at hstring
    cases hstring

/-- No string begins in a step but at the cursor. -/
theorem quotes_step (helement : r.phase.inString → r.element ≠ none) :
    Outcome (fun r' => r.Quotes r' r.cursor) (fun _ => True) (r.step c) := by
  cases hstring : r.phase.inString with
  | true =>
    exact Outcome.imp (quotes_step_inString hstring (helement hstring)) (fun _ h => .inl h)
      fun _ _ => trivial
  | false =>
    refine Outcome.imp (stays_step hstring) (fun r' hr' => ?_) fun _ _ => trivial
    rw [Quotes, quotes, quotes, hr'.1.strings, hstring]
    cases hstring' : r'.phase.inString with
    | false => exact .inl rfl
    | true => exact .inr (by simp [hr'.2 hstring'])

/-! ## Elements -/

/-- Elements are added at the end, and what they say does not change. -/
theorem marks_step : Outcome (fun r' => r.tree.elementMarks <+: r'.tree.elementMarks)
    (fun _ => True) (r.step c) := by
  cases hstring : r.phase.inString with
  | false => exact Outcome.imp (stays_step hstring) (fun _ h => h.1.marks) fun _ _ => trivial
  | true =>
    rw [step]
    cases h : r.phase with
    | string =>
      refine Outcome.ite (fun _ => List.prefix_rfl) fun _ => Outcome.ite (fun _ => ?_) fun _ =>
        List.prefix_rfl
      show r.tree.elementMarks <+: (r.addElement ..).tree.elementMarks
      rw [addElement]
      split
      · simp
      · exact List.prefix_rfl
    | stringEscape =>
      exact Outcome.ite (fun _ => List.prefix_rfl) fun _ => Outcome.ite (fun _ => List.prefix_rfl)
        fun _ => trivial
    | _ =>
      rw [h] at hstring
      cases hstring

/-! ## Accepted characters -/

/-- A character is skipped, or the step that reads it succeeds. -/
theorem accept_ok (h : r.accept c = .ok r') :
    (r.phase.inString = false ∧ isBlank c ∧ r' = { r.advance c with afterBlank := true }.pass) ∨
      ∃ r'', (r.phase.inString = false → isBlank c = false) ∧ (r.advance c).step c = .ok r'' ∧
        r' = { r'' with afterBlank := false }.pass := by
  rw [accept] at h
  split at h
  · next hskip =>
    rw [Bool.and_eq_true, Bool.not_eq_true'] at hskip
    exact .inl ⟨hskip.1, hskip.2, (Except.ok.inj h).symm⟩
  · next hread =>
    split at h
    · next r'' hstep =>
      refine .inr ⟨r'', fun hstring => ?_, hstep, (Except.ok.inj h).symm⟩
      simpa [hstring, advance] using hread
    · cases h

/-- Where reading a character fails, its step does. -/
theorem accept_error {e : ParseError} (h : r.accept c = .error e) :
    (r.phase.inString = false → isBlank c = false) ∧ (r.advance c).step c = .error e := by
  rw [accept] at h
  split at h
  · cases h
  · next hread =>
    split at h
    · cases h
    · next e' hstep =>
      refine ⟨fun hstring => by simpa [hstring, advance] using hread, ?_⟩
      rw [hstep, Except.error.inj h]

theorem fails_of_step {e : ParseError} (h : r.step c = .error e) : r.Fails c e := by
  have hstep := r.cursor_step (c := c)
  rw [h] at hstep
  exact hstep

theorem marks_accept (h : r.accept c = .ok r') : r.tree.elementMarks <+: r'.tree.elementMarks := by
  rcases accept_ok h with ⟨-, -, rfl⟩ | ⟨r'', -, hstep, rfl⟩
  · exact List.prefix_rfl
  · have hmarks := (r.advance c).marks_step (c := c)
    rw [hstep] at hmarks
    exact hmarks

/-- A blank outside strings is skipped. -/
theorem accept_blank (hstring : r.phase.inString = false) (hc : isBlank c) :
    r.accept c = .ok { r.advance c with afterBlank := true }.pass := by
  rw [accept, if_pos (by simp [advance, hstring, hc])]

/-- Another character is read. -/
theorem accept_of_step (hc : isBlank c = false) (h : (r.advance c).step c = .ok r') :
    r.accept c = .ok { r' with afterBlank := false }.pass := by
  rw [accept, if_neg (by simp [hc]), h]

theorem accept_of_step_error {e : ParseError} (hc : isBlank c = false)
    (h : (r.advance c).step c = .error e) : r.accept c = .error e := by
  rw [accept, if_neg (by simp [hc]), h]

variable {cs : List Char} {n : Nat}

/-- The cursor before the character at an offset is read. -/
def Before (r : Reader) (cs : List Char) (n : Nat) : Prop :=
  r.cursor = ⟨n, lineAt cs n, columnAt cs n - 1⟩

theorem endsLine_getElem? (hcs : ∀ d ∈ cs, d ≠ '\r') (h : cs[n]? = some c) :
    endsLine (cs.drop n) = decide (c = '\n') := by
  rw [endsLine_of_ne fun d hd => hcs d (List.mem_of_mem_drop hd), List.head?_drop, h]
  simp

/-- The cursor is at the character that is read, but at column 0 of the next line for a line
feed. -/
theorem Before.advance (h : r.Before cs n) (c : Char) : (r.advance c).cursor =
    if c = '\n' then ⟨n, lineAt cs n + 1, 0⟩ else Position.ofOffset cs n := by
  rw [Before] at h
  have hcolumn : 0 < columnAt cs n := columnAt_pos
  simp only [Reader.advance, h, Position.ofOffset, Nat.sub_add_cancel hcolumn]

/-- After a character the cursor is before the next one. -/
theorem Before.accept (h : r.Before cs n) (hcs : ∀ c ∈ cs, c ≠ '\r') (hc : cs[n]? = some c)
    (hr : r.accept c = .ok r') : r'.Before cs (n + 1) := by
  have hpass : ∀ r'' : Reader, r''.cursor = (r.advance c).cursor →
      r''.pass.Before cs (n + 1) := by
    intro r'' hr''
    have hcolumn : 0 < columnAt cs n := columnAt_pos
    rw [Before, Reader.pass, hr'', h.advance c, lineAt_succ, columnAt_succ,
      endsLine_getElem? hcs hc]
    by_cases hfeed : c = '\n' <;> simp [hfeed, Position.ofOffset]
  rcases accept_ok hr with ⟨-, -, rfl⟩ | ⟨r'', -, hstep, rfl⟩
  · exact hpass _ rfl
  · have hstays := (r.advance c).cursor_step (c := c)
    rw [hstep] at hstays
    exact hpass _ hstays

/-! ## Runs -/

/-- The states of a run and what has been read in them. -/
inductive Reaches (r₀ : Reader) : List Char → Reader → Prop
  | start : Reaches r₀ [] r₀
  | next {cs : List Char} {c : Char} {r r' : Reader} : Reaches r₀ cs r → r.accept c = .ok r' →
      Reaches r₀ (cs ++ [c]) r'

variable {r₀ : Reader} {pre : List Char}

/-- A run goes on with the characters that are accepted after it. -/
theorem Reaches.foldlM (h : r₀.Reaches pre r) (hcs : cs.foldlM accept r = .ok r') :
    r₀.Reaches (pre ++ cs) r' := by
  induction cs generalizing pre r with
  | nil =>
    cases hcs
    rwa [List.append_nil]
  | cons c cs ih =>
    rw [List.foldlM_cons] at hcs
    cases hc : r.accept c with
    | error e =>
      rw [hc] at hcs
      cases hcs
    | ok r₁ =>
      rw [hc] at hcs
      rw [← List.singleton_append, ← List.append_assoc]
      exact ih (h.next hc) hcs

/-- The state after some characters is computed by accepting them. -/
theorem reaches_iff_foldlM : r₀.Reaches pre r ↔ pre.foldlM accept r₀ = .ok r := by
  constructor
  · intro h
    induction h with
    | start => rfl
    | @next cs c r r' _ hr ih =>
      rw [List.foldlM_append, ih]
      show [c].foldlM accept r = _
      rw [List.foldlM_cons, hr]
      rfl
  · exact Reaches.start.foldlM

/-- A run of which the state passes a check. -/
theorem exists_reaches_of_any {p : Reader → Bool}
    (h : (pre.foldlM accept r₀).toOption.any p) : ∃ r, r₀.Reaches pre r ∧ p r := by
  simp only [reaches_iff_foldlM]
  cases hpre : pre.foldlM accept r₀ with
  | error e =>
    rw [hpre] at h
    cases h
  | ok r =>
    rw [hpre] at h
    exact ⟨r, rfl, h⟩

/-- A run through a state goes on from it. -/
theorem Reaches.rest (h : r₀.Reaches pre r) (h' : r₀.Reaches (pre ++ cs) r') : r.Reaches cs r' := by
  rw [reaches_iff_foldlM] at h h' ⊢
  rw [List.foldlM_append, h] at h'
  exact h'

/-- Elements stay in the tree. -/
theorem Reaches.marks (h : r₀.Reaches pre r) :
    r₀.tree.elementMarks <+: r.tree.elementMarks := by
  induction h with
  | start => exact List.prefix_rfl
  | next _ hr ih => exact ih.trans (marks_accept hr)

/-- What is left to read after some characters decides how the whole run ends. -/
theorem Reaches.run_eq (h : r₀.Reaches pre r) (added : Bool) (cs : List Char) :
    r₀.run added (pre ++ cs) = r.run added cs := by
  induction h generalizing cs with
  | start => rfl
  | @next pre c r r' _ hr ih =>
    rw [List.append_assoc, List.singleton_append, ih, run, hr]

/-- The first character of a run. -/
theorem reaches_cons : r₀.Reaches (c :: pre) r ↔ ∃ r₁, r₀.accept c = .ok r₁ ∧ r₁.Reaches pre r := by
  simp only [reaches_iff_foldlM, List.foldlM_cons]
  cases r₀.accept c with
  | error e => simp [bind, Except.bind]
  | ok r₁ => simp [bind, Except.bind]

/-- A run ends after the last character, or at one that fails. -/
theorem run_cases (added : Bool) (h : r₀.Reaches pre r) (cs : List Char) :
    (∃ r', r₀.Reaches (pre ++ cs) r' ∧ r.run added cs = r'.finish) ∨
      ∃ mid c rest r' e, cs = mid ++ c :: rest ∧ r₀.Reaches (pre ++ mid) r' ∧
        r'.accept c = .error e ∧ r.run added cs = .error (blame added rest e) := by
  induction cs generalizing r pre with
  | nil => exact .inl ⟨r, by rwa [List.append_nil], rfl⟩
  | cons c cs ih =>
    rw [run]
    cases hc : r.accept c with
    | error e => exact .inr ⟨[], c, cs, r, e, rfl, by rwa [List.append_nil], hc, rfl⟩
    | ok r' =>
      rcases ih (h.next hc) with ⟨s, hs, hrun⟩ | ⟨mid, d, rest, s, e, rfl, hs, he, hrun⟩
      · rw [List.append_assoc] at hs
        exact .inl ⟨s, hs, hrun⟩
      · rw [List.append_assoc] at hs
        exact .inr ⟨c :: mid, d, rest, s, e, rfl, hs, he, hrun⟩

/-- What holds before the first character and is kept by each, of the state and of what has been
read, holds in every run. -/
theorem Reaches.invariant {I : Nat → Reader → Prop} (h : r₀.Reaches pre r) (hpre : pre <+: cs)
    (hstart : I 0 r₀) (hnext : ∀ n c r r', cs[n]? = some c → I n r → r.accept c = .ok r' →
      I (n + 1) r') : I pre.length r := by
  induction h with
  | start => exact hstart
  | @next pre c r r' _ hr ih =>
    have hc : cs[pre.length]? = some c := by
      obtain ⟨rest, rfl⟩ := hpre
      simp
    rw [List.length_append, List.length_singleton]
    exact hnext _ c r r' hc (ih ((List.prefix_append ..).trans hpre)) hr

/-- The cursor in a run over a text. -/
theorem Reaches.before (h : r₀.Reaches pre r) (hpre : pre <+: cs) (hcs : ∀ c ∈ cs, c ≠ '\r')
    (hstart : r₀.Before cs 0) : r.Before cs pre.length :=
  h.invariant (I := fun n r => r.Before cs n) hpre hstart
    fun _ _ _ _ hc hr haccept => hr.accept hcs hc haccept

theorem before_initial (ops : List String) (filename : Option String) (source : String)
    (cs : List Char) : (Reader.initial ops filename source).Before cs 0 := rfl

end Reader

end Formulary

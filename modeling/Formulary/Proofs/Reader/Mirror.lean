import Formulary.Proofs.Reader.Guards
import Formulary.Proofs.Reader.Stage

/-!
# The reading over tables and the reading over nests

The reading of a text fills two tables and finds its way in them by places and counts.  As long as
its state shows the nest of a state over nests, and agrees with it in everything else, the two make
the same steps.

* `Reader.Mirrors`: a state shows a state over nests.
* `Reader.Agrees`: both steps fail, or the states after them mirror one another.
* `Mirrors.afterValue_operand`, `Mirrors.startValue`: the end and the start of a value agree.
-/

namespace Formulary

open Nest OpenFormula

namespace Reader

structure Mirrors (ops : List String) (r : Reader) (s : Nested) : Prop where
  operators : r.operators = ops
  shows : r.Shows s.nest
  phase : r.phase = s.phase
  afterBlank : r.afterBlank = s.afterBlank
  token : r.token = s.token
  memberName : r.memberName = s.memberName

/-- Both fail, or both succeed in states that mirror one another. -/
def Agrees (ops : List String) : Except ParseError Reader → Option Nested → Prop
  | .ok r, some s => r.Mirrors ops s
  | .error _, none => True
  | _, _ => False

variable {ops : List String} {r : Reader} {s : Nested} {e : OpenEntity} {es : List OpenEntity}
  {name : Option String} {f : OpenFormula} {c : Char}

theorem Agrees.ite {p : Prop} [Decidable p] {x y : Except ParseError Reader} {a b : Option Nested}
    (ht : p → Agrees ops x a) (hf : ¬ p → Agrees ops y b) :
    Agrees ops (if p then x else y) (if p then a else b) := by
  split
  · next h => exact ht h
  · next h => exact hf h

theorem Agrees.cases {x : Except ParseError Reader} {a : Option Nested} (h : Agrees ops x a) :
    (∃ err, x = .error err ∧ a = none) ∨ ∃ r s, x = .ok r ∧ a = some s ∧ r.Mirrors ops s := by
  cases x with
  | error err =>
    cases a with
    | none => exact .inl ⟨err, rfl, rfl⟩
    | some s => exact h.elim
  | ok r =>
    cases a with
    | none => exact h.elim
    | some s => exact .inr ⟨r, s, rfl, rfl, h⟩

theorem Mirrors.shows_of {n : Nest} (h : r.Mirrors ops s) (hn : s.nest = n) : r.Shows n := by
  rw [← hn]
  exact h.shows

/-! ## Tokens -/

theorem Mirrors.enter (h : r.Mirrors ops s) (p : Phase) : (r.enter p).Mirrors ops (s.enter p) :=
  ⟨h.operators, h.shows.enter p, rfl, h.afterBlank, h.token, h.memberName⟩

theorem Mirrors.beginToken (h : r.Mirrors ops s) (c : Char) :
    (r.beginToken c).Mirrors ops (s.beginToken c) :=
  ⟨h.operators, h.shows.beginToken c, h.phase, h.afterBlank, rfl, h.memberName⟩

theorem Mirrors.extendToken (h : r.Mirrors ops s) (c : Char) :
    (r.extendToken c).Mirrors ops (s.extendToken c) :=
  ⟨h.operators, h.shows.extendToken c, h.phase, h.afterBlank, congrArg (·.push c) h.token,
    h.memberName⟩

/-! ## Moves

Most elementary changes move between nests and keep everything else. -/

/-- Two states agree in all but the tree and the places and counts in it. -/
structure Keeps (r' r : Reader) : Prop where
  operators : r'.operators = r.operators
  phase : r'.phase = r.phase
  afterBlank : r'.afterBlank = r.afterBlank
  token : r'.token = r.token
  memberName : r'.memberName = r.memberName

theorem Keeps.refl (r : Reader) : r.Keeps r := ⟨rfl, rfl, rfl, rfl, rfl⟩

theorem keeps_leave : r.leave.Keeps r := by
  rw [Reader.leave]
  split <;> exact ⟨rfl, rfl, rfl, rfl, rfl⟩

theorem keeps_closeArray : r.closeArray.Keeps r :=
  ⟨keeps_leave.operators, keeps_leave.phase, keeps_leave.afterBlank, keeps_leave.token,
    keeps_leave.memberName⟩

theorem keeps_closeSection : r.closeSection.Keeps r :=
  ⟨keeps_leave.operators, keeps_leave.phase, keeps_leave.afterBlank, keeps_leave.token,
    keeps_leave.memberName⟩

theorem keeps_addElement (kind : ElementKind) (text : String) (position : Position) :
    (r.addElement kind text position).Keeps r := by
  rw [Reader.addElement]
  split <;> exact ⟨rfl, rfl, rfl, rfl, rfl⟩

theorem keeps_openParen : r.openParen.Keeps r := by
  rw [Reader.openParen]
  split
  · next id _ =>
    have := keeps_addElement (r := r.adjustParens id (· + 1)) .symbol "(" r.cursor
    exact ⟨this.operators, this.phase, this.afterBlank, this.token, this.memberName⟩
  · exact .refl r

theorem keeps_closeParen : r.closeParen.Keeps r := by
  rw [Reader.closeParen]
  split
  · have := keeps_addElement (r := r) .symbol ")" r.cursor
    exact ⟨this.operators, this.phase, this.afterBlank, this.token, this.memberName⟩
  · exact .refl r

theorem keeps_closeCall : r.closeCall.Keeps r := by
  rw [Reader.closeCall]
  split <;> exact ⟨rfl, rfl, rfl, rfl, rfl⟩

theorem keeps_nextArgument : r.nextArgument.Keeps r := by
  rw [Reader.nextArgument]
  split <;> exact ⟨rfl, rfl, rfl, rfl, rfl⟩

theorem Mirrors.move {r' : Reader} {n : Nest} (h : r.Mirrors ops s) (hk : r'.Keeps r)
    (hn : r'.Shows n) : r'.Mirrors ops { s with nest := n } :=
  ⟨hk.operators.trans h.operators, hn, hk.phase.trans h.phase, hk.afterBlank.trans h.afterBlank,
    hk.token.trans h.token, hk.memberName.trans h.memberName⟩

/-! ## The end of a value -/

theorem Mirrors.flush (h : r.Mirrors ops s) (hn : s.nest = .row e es name f) (kind : ElementKind) :
    (r.flush kind).Mirrors ops (s.flush kind) := by
  have hshows := h.shows_of hn
  have hmove := h.move (keeps_addElement kind r.token r.tokenStart)
    (hshows.addElement kind r.token r.tokenStart)
  rw [Nested.flush, hn, Nest.addLeaf, ← h.token]
  exact ⟨hmove.operators, hshows.flush kind, hmove.phase, hmove.afterBlank, rfl, hmove.memberName⟩

theorem Mirrors.flushOperand (h : r.Mirrors ops s) (hn : s.nest = .row e es name f) :
    r.flushOperand.Mirrors ops s.flushOperand := by
  have hphase := h.phase
  simp only [Reader.flushOperand, Nested.flushOperand, hphase]
  cases s.phase with
  | number => exact h.flush hn .number
  | numberFraction => exact h.flush hn .number
  | identifier => exact h.flush hn .identifier
  | _ => exact h

theorem Mirrors.leaveExpression (h : r.Mirrors ops s) (c : Char) (hn : s.nest = .row e es name f) :
    (r.leaveExpression c).Mirrors ops (s.leaveExpression c) := by
  have hshows := h.shows_of hn
  have hends : r.endsExpression c = Nested.endsExpression e f c := hshows.endsExpression c
  simp only [Reader.leaveExpression, Nested.leaveExpression, hn, h.phase, hends]
  split
  · next hif =>
    have hformula := Nested.endsExpression_eq ((Bool.and_eq_true _ _).mp hif).2
    rw [hformula] at hshows
    exact h.move keeps_leave hshows.leave_row
  · exact h

theorem Mirrors.separate_entity (h : r.Mirrors ops s) (hn : s.nest = .entity e es)
    (hb : Begun ops (e :: es)) (c : Char) : Agrees ops (r.separate c) (s.separate c) := by
  have hshows := h.shows_of hn
  cases hb with
  | root =>
    obtain ⟨ids, hids⟩ := hshows.content_sect
    simp only [Reader.separate, hids, Nested.separate, hn]
    exact .ite (fun _ => h.enter .memberEnd) (fun _ => trivial)
  | sect =>
    obtain ⟨ids, hids⟩ := hshows.content_sect
    simp only [Reader.separate, hids, Nested.separate, hn]
    exact .ite (fun _ => h.enter .memberEnd) (fun _ => trivial)
  | array =>
    obtain ⟨ids, hids⟩ := hshows.content_array
    simp only [Reader.separate, hids, Nested.separate, hn, hshows.openArrays_pos, and_true]
    refine .ite (fun _ => h.enter .arrayComma) (fun _ => .ite (fun _ => ?_) (fun _ => trivial))
    exact (h.move keeps_closeArray hshows.closeArray).enter .arrayClose

theorem Mirrors.separate_row (h : r.Mirrors ops s) (hn : s.nest = .row e es name f) (c : Char) :
    Agrees ops (r.separate c) (s.separate c) := by
  have hshows := h.shows_of hn
  simp only [Reader.separate, hshows.content_row, hshows.elementParens, hshows.inArgument,
    Nested.separate, hn]
  refine .ite (fun _ => h.enter .callComma) (fun _ => ?_)
  obtain ⟨⟨row, parens⟩, outer⟩ := f
  cases parens with
  | succ parens =>
    simp only [Nat.zero_lt_succ, gt_iff_lt, and_true]
    refine .ite (fun _ => ?_) (fun hc => ?_)
    · exact (h.move keeps_closeParen hshows.closeParen).enter .parenClose
    · simp only [hc, false_and, if_false]
      trivial
  | zero =>
    cases outer with
    | nil =>
      simp only [Nat.lt_irrefl, gt_iff_lt, and_false, if_false, ne_eq, not_true_eq_false, false_and]
      split <;> trivial
    | cons co outer =>
      obtain ⟨call, o⟩ := co
      have hdepth : OpenFormula.depth ⟨⟨row, 0⟩, (call, o) :: outer⟩ > 0 := by
        rw [depth, outerDepth]
        omega
      simp only [Nat.lt_irrefl, gt_iff_lt, and_false, if_false, ne_eq, reduceCtorEq,
        not_false_eq_true, hdepth, and_true]
      refine .ite (fun _ => ?_) (fun _ => trivial)
      exact (h.move keeps_closeCall hshows.closeCall).enter .parenClose

theorem Mirrors.afterValue_operand (h : r.Mirrors ops s) (hs : s.Staged ops)
    (hp : s.phase.endsOperand) (c : Char) : Agrees ops (r.afterValue c) (s.afterValue c) := by
  obtain ⟨hrow, -⟩ := hs.flushOperand hp
  obtain ⟨e, es, name, f, hn⟩ : ∃ e es name f, s.nest = .row e es name f := by
    obtain ⟨p, n, b, token, m⟩ := s
    cases hs with
    | number hn => exact hn.exists_row
    | numberFraction hn => exact hn.exists_row
    | identifier hn => exact hn.exists_row
    | parenClose hn => exact hn.exists_row
    | stringEnd hn => exact hn.exists_row
    | _ => cases hp
  have hflush := h.flushOperand hn
  obtain ⟨e', es', name', f', hn'⟩ := hrow.exists_row
  rw [Reader.afterValue, Nested.afterValue]
  refine .ite (fun _ => ?_) (fun _ => trivial)
  have hleave := hflush.leaveExpression c hn'
  -- the row may end here, and then what is around it goes on
  rcases Nested.leaveExpression_cases hrow c with hrow' | ⟨e₁, es₁, hn₁, hb⟩
  · obtain ⟨e₁, es₁, name₁, f₁, hn₁⟩ := hrow'.exists_row
    exact hleave.separate_row hn₁ c
  · exact hleave.separate_entity hn₁ hb c

theorem Mirrors.afterValue (h : r.Mirrors ops s) (hp : s.phase.endsOperand = false)
    (hs : Agrees ops (r.separate c) (s.separate c)) :
    Agrees ops (r.afterValue c) (s.afterValue c) := by
  have hflush : s.flushOperand = s := by
    obtain ⟨p, n, b, token, m⟩ := s
    cases p <;> first | rfl | cases hp
  have hflush' : r.flushOperand = r := by
    have hphase := h.phase
    simp only [Reader.flushOperand, hphase]
    revert hp
    cases s.phase <;> first | exact fun _ => rfl | exact fun hp => absurd hp (by decide)
  have hleave : s.leaveExpression c = s := by
    rw [Nested.leaveExpression]
    split
    · simp [hp]
    · rfl
  have hleave' : r.leaveExpression c = r := by
    simp [Reader.leaveExpression, h.phase, hp]
  rw [Reader.afterValue, Nested.afterValue, hflush, hflush', hleave, hleave']
  exact .ite (fun _ => hs) (fun _ => trivial)

theorem Mirrors.operatorStarts (h : r.Mirrors ops s) (c : Char) :
    r.operatorStarts c = ops.any fun op => [c].isPrefixOf op.toList := by
  rw [Reader.operatorStarts, beginsOperator, h.operators]

theorem Mirrors.beginOperator (h : r.Mirrors ops s) (c : Char) :
    (r.beginOperator c).Mirrors ops ((s.beginToken c).enter .operator) :=
  (h.beginToken c).enter .operator

theorem Mirrors.afterTerm (h : r.Mirrors ops s) (hs : s.Staged ops) (hp : s.phase.endsOperand)
    (c : Char) : Agrees ops (r.afterTerm c) (s.afterTerm ops c) := by
  rw [Reader.afterTerm, Nested.afterTerm, h.operatorStarts]
  exact .ite (fun _ => h.beginOperator c) (fun _ => h.afterValue_operand hs hp c)

theorem Mirrors.afterToken (h : r.Mirrors ops s) (hs : s.Staged ops) (hp : s.phase.endsOperand)
    (hn : s.nest = .row e es name f) (kind : ElementKind) (c : Char) :
    Agrees ops (r.afterToken kind c) (s.afterToken ops kind c) := by
  rw [Reader.afterToken, Nested.afterToken, h.operatorStarts]
  exact .ite (fun _ => (h.flush hn kind).beginOperator c) (fun _ => h.afterValue_operand hs hp c)

/-! ## The start of a value -/

theorem Mirrors.nextArgument {row : List ElementOutline} {call : OpenCall} {o : OpenRow}
    {outer : List (OpenCall × OpenRow)} (h : r.Mirrors ops s)
    (hn : s.nest = .row e es name ⟨⟨row, 0⟩, (call, o) :: outer⟩) :
    r.nextArgument.Mirrors ops { s with
      nest := .row e es name ⟨⟨[], 0⟩, (⟨call.name, call.done ++ [row]⟩, o) :: outer⟩ } := by
  have hshows := h.shows_of hn
  exact h.move keeps_nextArgument hshows.nextArgument

theorem Mirrors.openExpression (h : r.Mirrors ops s) (hn : s.nest = .entity e es) :
    r.openExpression.Mirrors ops { s with
      nest := .row e es s.memberName OpenFormula.blank, memberName := none } := by
  have hshows := h.shows_of hn
  rw [← h.memberName]
  exact ⟨h.operators, hshows.openExpression, h.phase, h.afterBlank, h.token, rfl⟩

theorem Mirrors.isExpression (h : r.Mirrors ops s) (hn : s.nest = .row e es name f) :
    r.entity.content.isExpression = true := by
  rw [(h.shows_of hn).content_row]
  rfl

theorem Mirrors.isExpression_entity (h : r.Mirrors ops s) (hn : s.nest = .entity e es) :
    r.entity.content.isExpression = false := (h.shows_of hn).isExpression_entity

theorem Mirrors.placeTerm (h : r.Mirrors ops s) (hs : s.Staged ops)
    (hp : Nested.startsTerm s.phase) (c : Char) :
    Agrees ops (r.placeTerm c) (s.placeTerm ops) := by
  have hphase := h.phase
  obtain ⟨p, n, b, token, m⟩ := s
  cases hs with
  | operator hn =>
    obtain ⟨e, es, name, f, rfl⟩ := hn.exists_row
    have htoken : r.token = token := h.token
    simp only [Reader.placeTerm, hphase, Nested.placeTerm, Reader.flushOperator, h.operators,
      htoken]
    exact .ite (fun _ => h.flush rfl .operator) (fun _ => trivial)
  | @parenOpen _ _ hn =>
    obtain ⟨e, es, name, ⟨i, outer⟩, rfl⟩ := hn.exists_row
    simp only [Reader.placeTerm, hphase, h.isExpression rfl, if_true]
    cases outer <;> exact h
  | callOpen h' hb hcalls =>
    simp only [Reader.placeTerm, hphase, h.isExpression rfl, if_true]
    exact h
  | callComma h' hb hcalls hrow =>
    simp only [Reader.placeTerm, hphase, h.isExpression rfl, if_true]
    exact h.nextArgument rfl
  | memberEquals h' hmember =>
    simp only [Reader.placeTerm, hphase, h.isExpression_entity rfl]
    exact h.openExpression rfl
  | arrayOpen h' =>
    simp only [Reader.placeTerm, hphase, h.isExpression_entity rfl]
    exact h.openExpression rfl
  | arrayComma h' =>
    simp only [Reader.placeTerm, hphase, h.isExpression_entity rfl]
    exact h.openExpression rfl
  | _ => cases hp

theorem Mirrors.beginTerm (h : r.Mirrors ops s) (hn : s.nest = .row e es name f) (c : Char) :
    Agrees ops (r.beginTerm c) (s.beginTerm c) := by
  have hshows := h.shows_of hn
  rw [Reader.beginTerm, Nested.beginTerm]
  refine .ite (fun _ => ?_) fun _ => .ite (fun _ => ?_) fun _ => .ite (fun _ => ?_) fun _ =>
    .ite (fun _ => ?_) fun _ => .ite (fun _ => ?_) fun _ => trivial
  · simp only [hn]
    exact (h.move keeps_openParen hshows.openParen).enter .parenOpen
  · exact ⟨h.operators, h.shows.of_same rfl rfl rfl rfl rfl, rfl, h.afterBlank, rfl, h.memberName⟩
  · exact (h.beginToken c).enter .minus
  · exact (h.beginToken c).enter .number
  · exact (h.beginToken c).enter .identifier

theorem Mirrors.startTerm (h : r.Mirrors ops s) (hs : s.Staged ops)
    (hp : Nested.startsTerm s.phase) (c : Char) :
    Agrees ops (r.startTerm c) (s.startTerm ops c) := by
  rw [Reader.startTerm, Nested.startTerm]
  refine .ite (fun _ => ?_) (fun _ => trivial)
  rcases (h.placeTerm hs hp c).cases with ⟨err, hx, hy⟩ | ⟨r', s', hx, hy, hplace⟩
  · rw [hx, hy]
    trivial
  · obtain ⟨e, es, name, f, hn⟩ := (hs.placeTerm hp hy).1.exists_row
    rw [hx, hy]
    exact hplace.beginTerm hn c

theorem Mirrors.startValue (h : r.Mirrors ops s) (hs : s.Staged ops)
    (hp : Nested.startsTerm s.phase) (hn : s.nest = .entity e es) (c : Char) :
    Agrees ops (r.startValue c) (s.startValue ops c) := by
  have hshows := h.shows_of hn
  simp only [Reader.startValue, Nested.startValue, hn, ← h.memberName]
  refine .ite (fun _ => ?_) fun _ => .ite (fun _ => ?_) fun _ => h.startTerm hs hp c
  · exact ⟨h.operators, hshows.openArray.enter .arrayOpen, rfl, h.afterBlank, h.token, rfl⟩
  · exact ⟨h.operators, hshows.openUntitled.enter .sectionMark, rfl, h.afterBlank, h.token, rfl⟩

/-! ## Sections and calls -/

theorem Mirrors.startMember {title : String} {ms : List EntityOutline} (h : r.Mirrors ops s)
    (hn : s.nest = .entity (.sect name (some title) ms) es) (c : Char) :
    Agrees ops (r.startMember c) (s.startMember c) := by
  have hshows := h.shows_of hn
  have hopen : r.openSections > 0 :=
    hshows.openSections_pos ⟨_, List.mem_cons_self, rfl⟩
  simp only [Reader.startMember, Nested.startMember, hn, hopen, and_true]
  refine .ite (fun _ => ?_) fun _ => .ite (fun _ => ?_) fun _ => trivial
  · cases es with
    | nil => exact (h.move keeps_closeSection hshows.closeRoot).enter .sectionClose
    | cons e es => exact (h.move keeps_closeSection hshows.closeSection).enter .sectionClose
  · exact (h.beginToken c).enter .memberName

theorem Mirrors.openSection {ms : List EntityOutline} (h : r.Mirrors ops s)
    (hn : s.nest = .entity (.sect name none ms) es) :
    (r.openSection.enter .sectionOpen).Mirrors ops { s with
      nest := .entity (.sect name (some s.token) ms) es, token := "", phase := .sectionOpen } := by
  have hshows := h.shows_of hn
  rw [← h.token]
  exact ⟨h.operators, hshows.openSection.enter .sectionOpen, rfl, h.afterBlank, rfl, h.memberName⟩

theorem Mirrors.openCall {i : OpenRow} {outer : List (OpenCall × OpenRow)} (h : r.Mirrors ops s)
    (hn : s.nest = .row e es name ⟨i, outer⟩) :
    (r.openCall.enter .callOpen).Mirrors ops { s with
      nest := .row e es name ⟨⟨[], 0⟩, (⟨s.token, []⟩, i) :: outer⟩
      token := "", phase := .callOpen } := by
  have hshows := h.shows_of hn
  have hr : r.openCall = { r with
      tree := r.openCall.tree, element := r.openCall.element, token := "" } := by
    have hflush := flush_eq (r := r.adjustParens
      (Frame.next (first (e :: es)) (outerFrames outer)) (· + 1)) hshows.element_eq .function
    simp only [Reader.openCall, hshows.element_eq, hflush]
    rfl
  have hopen := hshows.openCall.enter .callOpen
  rw [← h.token]
  refine ⟨?_, hopen, rfl, ?_, ?_, ?_⟩
  · rw [hr]; exact h.operators
  · rw [hr]; exact h.afterBlank
  · rw [hr]; rfl
  · rw [hr]; exact h.memberName

end Reader

end Formulary

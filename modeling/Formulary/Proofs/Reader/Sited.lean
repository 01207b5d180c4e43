import Formulary.Proofs.Reader.Log
import Formulary.Proofs.Reader.Runs
import Formulary.Proofs.Text.Basic

/-!
# The log is kept

Every step of a reading keeps the log of its tables, and what it holds of the token under way: where
the token began, and that its characters stand in the text from there on.

* `Reader.Steady`: the state between tokens; `Reader.Ready`: the state where a term begins.
* `Reader.Holding`: the state in a word.
* `Reader.Sited`: what each phase asks; `Reader.Sited.accept`: it is kept.
-/

namespace Formulary

/-! ## Words under way -/

/-- From the offset `k` on stand a word with this text and blanks up to the offset `n`; without `b`
there are no blanks. -/
def Held (cs : List Char) (n k : Nat) (b : Bool) (kind : ElementKind) (text : List Char) : Prop :=
  ∃ w bs, Word kind text w ∧ Blanks bs ∧ (b = false → bs = []) ∧ cs.drop k = w ++ (bs ++ cs.drop n)

variable {cs : List Char} {n k : Nat} {b : Bool} {kind : ElementKind} {text : List Char} {c : Char}

theorem drop_of_getElem? (hc : cs[n]? = some c) : cs.drop n = c :: cs.drop (n + 1) := by
  obtain ⟨hlt, rfl⟩ := List.getElem?_eq_some_iff.mp hc
  exact List.drop_eq_getElem_cons hlt

/-- The first character of a word. -/
theorem Held.first (hc : cs[n]? = some c) (hblank : isBlank c = false) :
    Held cs (n + 1) n false kind [c] :=
  ⟨[c], [], .verbatim (by simp) (by simpa using hblank), .nil, fun _ => rfl, drop_of_getElem? hc⟩

/-- One more character of a word. -/
theorem Held.extend (h : Held cs n k false kind text) (hc : cs[n]? = some c)
    (hblank : isBlank c = false) : Held cs (n + 1) k false kind (text ++ [c]) := by
  obtain ⟨w, bs, hw, -, hnil, hdrop⟩ := h
  refine ⟨w ++ [c], [], hw.snoc hblank, .nil, fun _ => rfl, ?_⟩
  rw [hdrop, hnil rfl, drop_of_getElem? hc]
  simp

/-- The first digit after a minus. -/
theorem Held.digit (h : Held cs n k b .number ['-']) (hc : cs[n]? = some c)
    (hblank : isBlank c = false) : Held cs (n + 1) k false .number ['-', c] := by
  obtain ⟨w, bs, hw, hbs, -, hdrop⟩ := h
  obtain rfl : w = ['-'] := by
    cases hw with
    | verbatim => rfl
    | minus _ hne => exact absurd rfl hne
  refine ⟨'-' :: (bs ++ [c]), [], .minus hbs (by simp) (by simpa using hblank), .nil,
    fun _ => rfl, ?_⟩
  rw [hdrop, drop_of_getElem? hc]
  simp

/-- A blank after a word. -/
theorem Held.blank (h : Held cs n k b kind text) (hc : cs[n]? = some c) (hblank : isBlank c) :
    Held cs (n + 1) k true kind text := by
  obtain ⟨w, bs, hw, hbs, -, hdrop⟩ := h
  refine ⟨w, bs ++ [c], hw, hbs.append (.cons hblank .nil), fun h => (nomatch h), ?_⟩
  rw [hdrop, drop_of_getElem? hc]
  simp

theorem Stands.of_eq {w bs : List Char} (hne : w ≠ []) (h : cs.drop k = w ++ (bs ++ cs.drop n)) :
    Stands cs n k w := by
  refine ⟨⟨_, h.symm⟩, ?_⟩
  have hlength := congrArg List.length h
  have := List.length_pos_iff.mpr hne
  simp only [List.length_drop, List.length_append] at hlength
  omega

theorem Held.spells {text : String} (h : Held cs n k b kind text.toList) (hkind : kind.isWord) :
    Spells cs n k kind text := by
  obtain ⟨w, bs, hw, -, -, hdrop⟩ := h
  exact .word hkind hw (.of_eq hw.ne_nil hdrop)

/-- A name may be that of a call. -/
theorem Held.of_ne {kind' : ElementKind} (h : Held cs n k b kind text) (hkind : kind ≠ .number) :
    Held cs n k b kind' text := by
  obtain ⟨w, bs, hw, hrest⟩ := h
  exact ⟨w, bs, hw.of_ne hkind, hrest⟩

namespace Reader

variable {r r' : Reader}

/-! ## States -/

/-- Between two tokens, once `n` characters have been read. -/
def Steady (cs : List Char) (n : Nat) (r : Reader) : Prop :=
  Log cs n r.tree.entityMarks r.tree.elementMarks ∧
    ∀ id, r.element = some id → id < r.tree.elementMarks.length

/-- Where a term begins at the offset `k`. -/
def Ready (cs : List Char) (k : Nat) (r : Reader) : Prop :=
  Awaits cs k r.tree.entityMarks r.tree.elementMarks r.element

def Holding (cs : List Char) (n : Nat) (b : Bool) (kind : ElementKind) (r : Reader) : Prop :=
  ∃ k, r.tokenStart = .ofOffset cs k ∧ r.Ready cs k ∧ Held cs n k b kind r.token.toList

def Quoting (cs : List Char) (n : Nat) (l : Literal) (r : Reader) : Prop :=
  ∃ k < n, r.tokenStart = .ofOffset cs k ∧ r.Ready cs k ∧ cs[k]? = some '"' ∧ literalAt cs k n = l

/-- What each phase asks of the tables and the token; `b` says that blanks have been skipped. -/
def Asks (cs : List Char) (n : Nat) (b : Bool) (r : Reader) : Phase → Prop
  | .start => (∃ filename source, r.tree = Tree.blank filename source) ∧ r.element = none
  | .string => r.Quoting cs n .inside
  | .stringEscape => r.Quoting cs n .escaped
  | .minus => r.token.toList = ['-'] ∧ r.Holding cs n b .number
  | .number | .numberPoint | .numberFraction => r.Holding cs n b .number
  | .operator => r.Holding cs n b .operator
  | .identifier => r.Holding cs n b .identifier
  | .callComma => r.Steady cs n ∧ r.entity.content.isExpression
  | .final => ∃ m < n, r.Steady cs m
  | _ => r.Steady cs n

def Sited (cs : List Char) (n : Nat) (b : Bool) (r : Reader) : Prop := r.Asks cs n b r.phase

theorem Steady.mono {n' : Nat} (h : r.Steady cs n) (hn : n ≤ n') : r.Steady cs n' :=
  ⟨h.1.wait hn, h.2⟩

theorem Steady.ready (h : r.Steady cs n) : r.Ready cs n := .steady h.1 h.2

/-! ## Elements -/

/-- The first element of a term. -/
theorem Ready.addElement {text : String} (h : r.Ready cs k) (hspells : Spells cs n k kind text) :
    (r.addElement kind text (.ofOffset cs k)).Steady cs n := by
  rw [Reader.addElement]
  rw [Ready] at h
  cases helement : r.element with
  | none =>
    rw [helement] at h
    exact ⟨h.log_of_none.wait (Nat.le_of_lt hspells.lt), fun id hid => by simp [helement] at hid⟩
  | some p =>
    rw [helement] at h
    have hp : p < r.tree.elementMarks.length := h.lt
    refine ⟨by simpa using h.token hspells, fun id hid => ?_⟩
    have hid : some p = some id := hid
    obtain rfl := Option.some.inj hid
    simpa using Nat.lt_succ_of_lt hp

theorem Ready.flush (h : r.Ready cs k) (hstart : r.tokenStart = .ofOffset cs k)
    (hspells : Spells cs n k kind r.token) : (r.flush kind).Steady cs n := by
  rw [Reader.flush, hstart]
  exact h.addElement hspells

theorem Holding.flush (h : r.Holding cs n b kind) (hkind : kind.isWord) :
    (r.flush kind).Steady cs n := by
  obtain ⟨k, hstart, hready, hheld⟩ := h
  exact hready.flush hstart (hheld.spells hkind)

/-- A closing quote. -/
theorem Quoting.flush (h : r.Quoting cs n .inside) (hc : cs[n]? = some '"') :
    (r.flush .string).Steady cs (n + 1) := by
  obtain ⟨k, hk, hstart, hready, hquote, hinside⟩ := h
  exact hready.flush hstart (.string hquote (by rw [literalAt_succ hk hc, hinside]; rfl))

/-- One more character of a string. -/
theorem Quoting.next {l : Literal} (h : r.Quoting cs n l) (hc : cs[n]? = some c) :
    r.Quoting cs (n + 1) (l.next c) := by
  obtain ⟨k, hk, hstart, hready, hquote, hinside⟩ := h
  exact ⟨k, Nat.lt_succ_of_lt hk, hstart, hready, hquote, by rw [literalAt_succ hk hc, hinside]⟩

theorem Holding.extend (h : r.Holding cs n false kind) (hc : cs[n]? = some c)
    (hblank : isBlank c = false) : (r.extendToken c).Holding cs (n + 1) false kind := by
  obtain ⟨k, hstart, hready, hheld⟩ := h
  exact ⟨k, hstart, hready, by simpa [extendToken] using hheld.extend hc hblank⟩

theorem Holding.blank (h : r.Holding cs n b kind) (hc : cs[n]? = some c) (hblank : isBlank c) :
    r.Holding cs (n + 1) true kind := by
  obtain ⟨k, hstart, hready, hheld⟩ := h
  exact ⟨k, hstart, hready, hheld.blank hc hblank⟩

theorem Ready.holding (h : r.Ready cs n) (hcursor : r.cursor = .ofOffset cs n)
    (hc : cs[n]? = some c) (hblank : isBlank c = false) :
    (r.beginToken c).Holding cs (n + 1) false kind :=
  ⟨n, hcursor, h, by simpa [beginToken] using Held.first hc hblank⟩

/-! ## Parentheses and calls -/

/-- Parentheses are counted without a mark. -/
@[simp] theorem entityMarks_adjustParens (id : ElementId) (f : Nat → Nat) :
    (r.adjustParens id f).tree.entityMarks = r.tree.entityMarks := by
  refine (Tree.entityMarks_modifyEntity fun e => ?_).trans Tree.entityMarks_modifyElement
  split
  · next hcontent => simp [Entity.mark, hcontent, Content.sort]
  · rfl

@[simp] theorem elementMarks_adjustParens (id : ElementId) (f : Nat → Nat) :
    (r.adjustParens id f).tree.elementMarks = r.tree.elementMarks :=
  Tree.elementMarks_modifyElement fun _ => rfl

theorem Ready.adjustParens (h : r.Ready cs k) (id : ElementId) (f : Nat → Nat) :
    (r.adjustParens id f).Ready cs k := by
  rw [Ready, entityMarks_adjustParens, elementMarks_adjustParens]
  exact h

theorem Steady.adjustParens (h : r.Steady cs n) (id : ElementId) (f : Nat → Nat) :
    (r.adjustParens id f).Steady cs n := by
  rw [Steady, entityMarks_adjustParens, elementMarks_adjustParens]
  exact h

theorem spells_symbol {text : String} (htext : text.toList = [c]) (hc : cs[n]? = some c)
    (hblank : isBlank c = false) : Spells cs (n + 1) n .symbol text := by
  have hword : Word .symbol text.toList [c] := by
    rw [htext]
    exact .verbatim (by simp) (by simpa using hblank)
  exact .word rfl hword (.of_getElem? hc)

theorem Ready.openParen (h : r.Ready cs n) (hcursor : r.cursor = .ofOffset cs n)
    (hc : cs[n]? = some '(') : r.openParen.Steady cs (n + 1) := by
  rw [Reader.openParen]
  split
  · next id _ =>
    rw [hcursor]
    exact (h.adjustParens id (· + 1)).addElement (spells_symbol rfl hc rfl)
  · next helement =>
    rw [Ready, helement] at h
    exact ⟨h.log_of_none.wait (Nat.le_succ n), fun id hid => by simp [helement] at hid⟩

theorem Steady.closeParen (h : r.Steady cs n) (hcursor : r.cursor = .ofOffset cs n)
    (hc : cs[n]? = some ')') : r.closeParen.Steady cs (n + 1) := by
  rw [Reader.closeParen]
  split
  · next id _ =>
    rw [hcursor]
    exact (h.ready.addElement (spells_symbol rfl hc rfl)).adjustParens id (· - 1)
  · exact h.mono (Nat.le_succ n)

/-- The parent of an element is before it in the table. -/
theorem Steady.parent_lt {id p : ElementId} (h : r.Steady cs n)
    (hid : id < r.tree.elementMarks.length) (hp : (r.tree.element id).parent = some p) : p < id :=
  (h.1.sited id _ (Tree.getElem?_elementMarks (by simpa using hid))).parent p hp

theorem Steady.closeCall (h : r.Steady cs n) : r.closeCall.Steady cs n := by
  rw [Reader.closeCall]
  split
  · next outer houter =>
    rw [Option.bind_eq_some_iff] at houter
    obtain ⟨call, hcall, houter⟩ := houter
    rw [Option.bind_eq_some_iff] at hcall
    obtain ⟨id, hid, hcall⟩ := hcall
    have hlt := h.2 id hid
    have hcallLt := h.parent_lt hlt hcall
    have houterLt := h.parent_lt (Nat.lt_trans hcallLt hlt) houter
    refine Steady.adjustParens (r := { r with element := some outer }) ⟨h.1, fun id' hid' => ?_⟩ _ _
    obtain rfl : outer = id' := Option.some.inj hid'
    exact Nat.lt_trans houterLt (Nat.lt_trans hcallLt hlt)
  · exact h

/-- A further argument waits for its first term. -/
theorem Steady.nextArgument (h : r.Steady cs n) (hcursor : r.cursor = .ofOffset cs n)
    (hterm : TermAt cs n) : r.nextArgument.Ready cs n := by
  rw [Reader.nextArgument]
  split
  · next call hcall =>
    rw [Option.bind_eq_some_iff] at hcall
    obtain ⟨id, hid, hcall⟩ := hcall
    have hlt := h.2 id hid
    have hmark : r.tree.elementMarks[id]? = some (r.tree.element id).mark :=
      Tree.getElem?_elementMarks (by simpa using hlt)
    have hawaits := Awaits.further h.1 (List.mem_of_getElem? hmark) hcall
      (Nat.lt_trans (h.parent_lt hlt hcall) hlt) hterm
    simpa [Ready, hcursor] using hawaits
  · exact h.ready

/-- The first argument of a call stands at its parenthesis. -/
theorem Holding.openCall (h : r.Holding cs n b .identifier) (hcursor : r.cursor = .ofOffset cs n)
    (hc : cs[n]? = some '(') : r.openCall.Steady cs (n + 1) := by
  obtain ⟨k, hstart, hready, hheld⟩ := h
  have hcall : Held cs n k b .function r.token.toList := hheld.of_ne (by decide)
  have hspells := hcall.spells rfl
  rw [Reader.openCall]
  split
  · next id helement =>
    have hflush : ((r.adjustParens id (· + 1)).flush .function).Steady cs n :=
      (hready.adjustParens id _).flush hstart hspells
    have hsize : ((r.adjustParens id (· + 1)).flush .function).tree.elementMarks.length =
        r.tree.elements.size + 1 := by
      have helement' : (r.adjustParens id (· + 1)).element = some id := helement
      simp [Reader.flush, Reader.addElement, helement']
    have hargument := hflush.1.argument (p := r.tree.elements.size) hc hsize.symm
    have hplace : ((r.adjustParens id (· + 1)).flush .function).cursor = .ofOffset cs n :=
      (retains_flush (by decide)).cursor.trans hcursor
    rw [← hplace] at hargument
    refine ⟨?_, fun id' hid' => ?_⟩
    · simpa using hargument
    · obtain rfl : r.tree.elements.size + 1 = id' := Option.some.inj hid'
      simp [hsize]
  · next helement =>
    rw [Ready, helement] at hready
    exact ⟨hready.log_of_none.wait (Nat.le_of_lt (Nat.lt_succ_of_lt hspells.lt)),
      fun id hid => by simp [helement] at hid⟩

/-! ## Entities -/

theorem Steady.leave (h : r.Steady cs n) : r.leave.Steady cs n := by
  rw [Reader.leave]
  split <;> exact h

theorem Steady.closeArray (h : r.Steady cs n) : r.closeArray.Steady cs n := h.leave

theorem Steady.closeSection (h : r.Steady cs n) : r.closeSection.Steady cs n := h.leave

theorem Steady.openArray (h : r.Steady cs n) (hcursor : r.cursor = .ofOffset cs n)
    (hc : cs[n]? = some '[') : r.openArray.Steady cs (n + 1) := by
  refine ⟨?_, h.2⟩
  have hlog := h.1.array hc
  rw [← hcursor] at hlog
  simpa [Reader.openArray, Reader.openEntity, Content.sort] using hlog

theorem Steady.openUntitled (h : r.Steady cs n) (hcursor : r.cursor = .ofOffset cs n)
    (hc : cs[n]? = some '#') : (r.openEntity (.sect none #[])).Steady cs (n + 1) := by
  refine ⟨?_, h.2⟩
  have hlog := h.1.sect hc
  rw [← hcursor] at hlog
  simpa [Reader.openEntity, Content.sort] using hlog

theorem Steady.openSection (h : r.Steady cs n) : r.openSection.Steady cs n := by
  have hmarks : r.openSection.tree.entityMarks = r.tree.entityMarks := by
    refine Tree.entityMarks_modifyEntity fun e => ?_
    split
    · next hcontent => simp [Entity.mark, hcontent, Content.sort]
    · rfl
  refine ⟨?_, h.2⟩
  rw [hmarks]
  exact h.1

theorem Steady.openExpression (h : r.Steady cs n) (hcursor : r.cursor = .ofOffset cs n)
    (hterm : TermAt cs n) : r.openExpression.Ready cs n := by
  have hawaits := Awaits.expression h.1 hterm
  simpa [Ready, Reader.openExpression, hcursor] using hawaits

/-! ## The end of a value -/

def Logs (cs : List Char) (n : Nat) : Except ParseError Reader → Prop :=
  Outcome (Sited cs (n + 1) false) fun _ => True

theorem logs_reject : Logs cs n (r.reject c) := trivial

/-- The token goes on in the same phase. -/
theorem logs_extend {p : Phase} (hp : r.phase = p)
    (h : (r.extendToken c).Asks cs (n + 1) false p) : Logs cs n (.ok (r.extendToken c)) := by
  subst hp
  exact h

theorem logs_ite {p : Prop} [Decidable p] {x y : Except ParseError Reader} (ht : p → Logs cs n x)
    (hf : ¬ p → Logs cs n y) : Logs cs n (if p then x else y) := Outcome.ite ht hf

/-- The token goes on in another phase. -/
theorem logs_enter {p : Phase} (h : r.Asks cs (n + 1) false p) : Logs cs n (.ok (r.enter p)) := by
  cases p <;> exact h

theorem Steady.leaveExpression (h : r.Steady cs n) (c : Char) :
    (r.leaveExpression c).Steady cs n := by
  rw [Reader.leaveExpression]
  split
  · exact h.leave
  · exact h

theorem Steady.separate (h : r.Steady cs n) (hcursor : r.cursor = .ofOffset cs n)
    (hc : cs[n]? = some c) : Logs cs n (r.separate c) := by
  have hnext := h.mono (Nat.le_succ n)
  rw [Reader.separate]
  split
  · exact logs_ite (fun _ => hnext) fun _ => logs_reject
  · exact logs_ite (fun _ => hnext) fun _ => logs_ite (fun _ => hnext.closeArray) fun _ =>
      logs_reject
  · next hcontent =>
    refine logs_ite (fun _ => ⟨hnext, ?_⟩) fun _ => logs_ite (fun hparen => ?_) fun _ =>
      logs_ite (fun _ => hnext.closeCall) fun _ => logs_reject
    · show r.entity.content.isExpression
      rw [hcontent]
      rfl
    · obtain ⟨rfl, -⟩ := hparen
      exact h.closeParen hcursor hc

/-- The end of a value whose last token has become an element. -/
theorem Steady.afterValue (h : r.flushOperand.Steady cs n) (hcursor : r.cursor = .ofOffset cs n)
    (hc : cs[n]? = some c) : Logs cs n (r.afterValue c) :=
  logs_ite (fun _ => (h.leaveExpression c).separate
    ((retains_leaveExpression.trans retains_flushOperand).cursor.trans hcursor) hc) fun _ =>
      logs_reject

/-- An operator begins after an operand. -/
theorem Steady.beginOperator (h : r.Steady cs n) (hcursor : r.cursor = .ofOffset cs n)
    (hc : cs[n]? = some c) (hblank : isBlank c = false) :
    (r.beginOperator c).Sited cs (n + 1) false := h.ready.holding hcursor hc hblank

theorem Steady.afterTerm (h : r.Steady cs n) (hflush : r.flushOperand = r)
    (hcursor : r.cursor = .ofOffset cs n) (hc : cs[n]? = some c) (hblank : isBlank c = false) :
    Logs cs n (r.afterTerm c) :=
  logs_ite (fun _ => h.beginOperator hcursor hc hblank) fun _ =>
    Steady.afterValue (hflush.symm ▸ h) hcursor hc

theorem Holding.afterToken (h : r.Holding cs n b kind) (hkind : kind.isWord)
    (hflush : r.flushOperand = r.flush kind) (hcursor : r.cursor = .ofOffset cs n)
    (hc : cs[n]? = some c) (hblank : isBlank c = false) : Logs cs n (r.afterToken kind c) :=
  logs_ite (fun _ => (h.flush hkind).beginOperator
    ((retains_flush (by rintro rfl; cases hkind)).cursor.trans hcursor) hc hblank)
    fun _ => Steady.afterValue (hflush.symm ▸ h.flush hkind) hcursor hc

/-! ## The start of a value -/

def Places (cs : List Char) (n : Nat) : Except ParseError Reader → Prop :=
  Outcome (fun r => r.Ready cs n ∧ r.cursor = .ofOffset cs n) fun _ => True

/-- A term follows no operator, and a comma in a call stands inside an expression. -/
def Starts (r : Reader) : Prop :=
  r.phase ≠ .operator ∧ (r.phase = .callComma → r.entity.content.isExpression)

theorem Steady.placeTerm (h : r.Steady cs n) (hstarts : r.Starts)
    (hcursor : r.cursor = .ofOffset cs n) (hterm : TermAt cs n) : Places cs n (r.placeTerm c) := by
  rw [Reader.placeTerm]
  split
  · next hphase => exact absurd hphase hstarts.1
  · by_cases hcomma : r.phase = .callComma
    · simp only [if_pos (hstarts.2 hcomma), if_pos hcomma]
      exact ⟨h.nextArgument hcursor hterm, retains_nextArgument.cursor.trans hcursor⟩
    · simp only [if_neg hcomma]
      split
      · exact ⟨h.ready, hcursor⟩
      · exact ⟨h.openExpression hcursor hterm, hcursor⟩

theorem Holding.placeTerm (h : r.Holding cs n b .operator) (hphase : r.phase = .operator)
    (hcursor : r.cursor = .ofOffset cs n) : Places cs n (r.placeTerm c) := by
  rw [Reader.placeTerm, hphase]
  exact Outcome.ite (fun _ => ⟨(h.flush rfl).ready,
    (retains_flush (by decide)).cursor.trans hcursor⟩)
    fun _ => trivial

/-- The first character of a term. -/
theorem Ready.beginTerm (h : r.Ready cs n) (hcursor : r.cursor = .ofOffset cs n)
    (hc : cs[n]? = some c) (hblank : isBlank c = false) : Logs cs n (r.beginTerm c) := by
  refine logs_ite (fun hparen => ?_) fun _ => logs_ite (fun hquote => ?_) fun _ =>
    logs_ite (fun hminus => ?_) fun _ => logs_ite (fun _ => h.holding hcursor hc hblank) fun _ =>
      logs_ite (fun _ => h.holding hcursor hc hblank) fun _ => logs_reject
  · subst hparen
    exact h.openParen hcursor hc
  · subst hquote
    exact ⟨n, Nat.lt_succ_self n, hcursor, h, hc, literalAt_self_succ⟩
  · subst hminus
    exact ⟨by simp [beginToken, enter], h.holding hcursor hc hblank⟩

theorem logs_startTerm (h : TermAt cs n → Places cs n (r.placeTerm c)) (hc : cs[n]? = some c)
    (hblank : isBlank c = false) : Logs cs n (r.startTerm c) :=
  logs_ite (fun hterm => Outcome.bind (h ⟨c, hc, hterm⟩) fun _ hr =>
    hr.1.beginTerm hr.2 hc hblank) fun _ => logs_reject

theorem Steady.startTerm (h : r.Steady cs n) (hstarts : r.Starts)
    (hcursor : r.cursor = .ofOffset cs n) (hc : cs[n]? = some c) (hblank : isBlank c = false) :
    Logs cs n (r.startTerm c) := logs_startTerm (h.placeTerm hstarts hcursor) hc hblank

theorem Steady.startValue (h : r.Steady cs n) (hstarts : r.Starts)
    (hcursor : r.cursor = .ofOffset cs n) (hc : cs[n]? = some c) (hblank : isBlank c = false) :
    Logs cs n (r.startValue c) := by
  refine logs_ite (fun harray => ?_) fun _ => logs_ite (fun hsection => ?_) fun _ =>
    h.startTerm hstarts hcursor hc hblank
  · subst harray
    exact h.openArray hcursor hc
  · subst hsection
    exact h.openUntitled hcursor hc

/-! ## The step -/

/-- The position of the root section is that of its mark. -/
theorem steady_root {filename : Option String} {source : String}
    (htree : r.tree = Tree.blank filename source) (helement : r.element = none)
    (hcursor : r.cursor = .ofOffset cs n) (hc : cs[n]? = some '#') :
    ({ r with
      tree := r.tree.modifyEntity Tree.root fun e => { e with position := r.cursor }
      phase := .sectionMark } : Reader).Steady cs (n + 1) := by
  have hlog := (Log.blank.wait (Nat.zero_le n)).sect hc
  rw [← hcursor] at hlog
  exact ⟨by rw [htree]; exact hlog, fun id hid => by simp [helement] at hid⟩

/-- A word goes on where no blank stands before the character. -/
theorem Holding.go (h : r.Holding cs n r.afterBlank kind) {p : Bool} (hp : !r.afterBlank && p)
    (hc : cs[n]? = some c) (hblank : isBlank c = false) :
    (r.extendToken c).Holding cs (n + 1) false kind := by
  rw [Bool.and_eq_true, Bool.not_eq_true'] at hp
  rw [hp.1] at h
  exact h.extend hc hblank

/-- The first digit of a number after its minus. -/
theorem Holding.digit (h : r.Holding cs n b .number) (htoken : r.token.toList = ['-'])
    (hc : cs[n]? = some c) (hblank : isBlank c = false) :
    (r.extendToken c).Holding cs (n + 1) false .number := by
  obtain ⟨k, hstart, hready, hheld⟩ := h
  rw [htoken] at hheld
  exact ⟨k, hstart, hready, by simpa [extendToken, htoken] using hheld.digit hc hblank⟩

/-- A step outside strings keeps the log. -/
theorem Sited.step (h : r.Sited cs n r.afterBlank) (hstring : r.phase.inString = false)
    (hcursor : r.cursor = .ofOffset cs n) (hc : cs[n]? = some c) (hblank : isBlank c = false) :
    Logs cs n (r.step c) := by
  have hstarts : r.phase ≠ .operator → r.phase ≠ .callComma → r.Starts :=
    fun hop hcomma => ⟨hop, fun h => absurd h hcomma⟩
  rw [Reader.step]
  rw [Sited] at h
  cases hp : r.phase with
  | start =>
    rw [hp] at h
    obtain ⟨⟨filename, source, htree⟩, helement⟩ := h
    refine logs_ite (fun hmark => ?_) fun _ => logs_reject
    subst hmark
    exact steady_root htree helement hcursor hc
  | sectionMark =>
    rw [hp] at h
    exact logs_ite (fun _ => Steady.mono h (Nat.le_succ n)) fun _ => logs_reject
  | sectionTitle =>
    rw [hp] at h
    exact logs_ite (fun _ => logs_extend hp (Steady.mono h (Nat.le_succ n))) fun _ =>
      logs_ite (fun _ => (Steady.openSection h).mono (Nat.le_succ n)) fun _ => logs_reject
  | sectionOpen | memberEnd =>
    rw [hp] at h
    exact logs_ite (fun _ => (Steady.closeSection h).mono (Nat.le_succ n)) fun _ =>
      logs_ite (fun _ => Steady.mono h (Nat.le_succ n)) fun _ => logs_reject
  | sectionClose =>
    rw [hp] at h
    have hflush : r.flushOperand = r := by rw [flushOperand, hp]
    exact logs_ite (fun _ => logs_ite (fun _ => ⟨n, Nat.lt_succ_self n, h⟩) fun _ => logs_reject)
      fun _ => Steady.afterValue (hflush.symm ▸ h) hcursor hc
  | memberName =>
    rw [hp] at h
    exact logs_ite (fun _ => logs_extend hp (Steady.mono h (Nat.le_succ n))) fun _ =>
      logs_ite (fun _ => Steady.mono h (Nat.le_succ n)) fun _ => logs_reject
  | memberEquals | arrayComma =>
    rw [hp] at h
    exact Steady.startValue h (hstarts (by simp [hp]) (by simp [hp])) hcursor hc hblank
  | arrayOpen =>
    rw [hp] at h
    exact logs_ite (fun _ => (Steady.closeArray h).mono (Nat.le_succ n)) fun _ =>
      Steady.startValue h (hstarts (by simp [hp]) (by simp [hp])) hcursor hc hblank
  | arrayClose =>
    rw [hp] at h
    have hflush : r.flushOperand = r := by rw [flushOperand, hp]
    exact Steady.afterValue (hflush.symm ▸ h) hcursor hc
  | parenOpen =>
    rw [hp] at h
    exact Steady.startTerm h (hstarts (by simp [hp]) (by simp [hp])) hcursor hc hblank
  | callComma =>
    rw [hp] at h
    exact Steady.startTerm h.1 ⟨by simp [hp], fun _ => h.2⟩ hcursor hc hblank
  | parenClose | stringEnd =>
    rw [hp] at h
    exact Steady.afterTerm h (by rw [flushOperand, hp]) hcursor hc hblank
  | string | stringEscape =>
    rw [hp] at hstring
    cases hstring
  | minus =>
    rw [hp] at h
    exact logs_ite (fun _ => h.2.digit h.1 hc hblank) fun _ => logs_reject
  | number =>
    rw [hp] at h
    exact logs_ite (fun hgo => logs_extend hp (Holding.go h hgo hc hblank)) fun _ =>
      logs_ite (fun hgo => logs_enter
        (Holding.go (p := decide (c = '.')) h (by simpa using hgo) hc hblank)) fun _ =>
        Holding.afterToken h rfl (by rw [flushOperand, hp]) hcursor hc hblank
  | numberPoint =>
    rw [hp] at h
    exact logs_ite (fun hgo => logs_enter (Holding.go h hgo hc hblank)) fun _ => logs_reject
  | numberFraction =>
    rw [hp] at h
    exact logs_ite (fun hgo => logs_extend hp (Holding.go h hgo hc hblank)) fun _ =>
      Holding.afterToken h rfl (by rw [flushOperand, hp]) hcursor hc hblank
  | operator =>
    rw [hp] at h
    exact logs_ite (fun hgo => logs_extend hp (Holding.go h hgo hc hblank)) fun _ =>
      logs_startTerm (fun _ => Holding.placeTerm h hp hcursor) hc hblank
  | identifier =>
    rw [hp] at h
    refine logs_ite (fun hgo => logs_extend hp (Holding.go h hgo hc hblank)) fun _ =>
      logs_ite (fun hparen => ?_)
      fun _ => Holding.afterToken h rfl (by rw [flushOperand, hp]) hcursor hc hblank
    subst hparen
    exact Holding.openCall h hcursor hc
  | callOpen =>
    rw [hp] at h
    have hflush : r.flushOperand = r := by rw [flushOperand, hp]
    exact logs_ite (fun _ => Steady.afterValue (hflush.symm ▸ h) hcursor hc) fun _ =>
      Steady.startTerm h (hstarts (by simp [hp]) (by simp [hp])) hcursor hc hblank
  | final => exact logs_reject

/-- So does a step in a string, where every character is read. -/
theorem Sited.step_inString (h : r.Sited cs n b) (hstring : r.phase.inString)
    (hc : cs[n]? = some c) : Logs cs n (r.step c) := by
  rw [Reader.step]
  rw [Sited] at h
  cases hp : r.phase with
  | string =>
    rw [hp] at h
    have hnext := Quoting.next h hc
    refine logs_ite (fun hback => ?_) fun hback => logs_ite (fun hquote => ?_) fun hquote => ?_
    · subst hback
      exact hnext
    · subst hquote
      exact Quoting.flush h hc
    · rw [Literal.next, if_neg hback, if_neg hquote] at hnext
      exact logs_extend hp hnext
  | stringEscape =>
    rw [hp] at h
    exact logs_ite (fun _ => Quoting.next h hc) fun _ => logs_ite (fun _ => Quoting.next h hc)
      fun _ => trivial
  | _ =>
    rw [hp] at hstring
    cases hstring

/-- A blank that is skipped leaves a trace. -/
theorem Sited.blank (h : r.Sited cs n b) (hstring : r.phase.inString = false)
    (hc : cs[n]? = some c) (hblank : isBlank c) : r.Sited cs (n + 1) true := by
  rw [Sited] at h ⊢
  cases hp : r.phase with
  | start =>
    rw [hp] at h
    exact h
  | string | stringEscape =>
    rw [hp] at hstring
    cases hstring
  | minus =>
    rw [hp] at h
    exact ⟨h.1, h.2.blank hc hblank⟩
  | number | numberPoint | numberFraction | operator | identifier =>
    rw [hp] at h
    exact Holding.blank h hc hblank
  | callComma =>
    rw [hp] at h
    exact ⟨h.1.mono (Nat.le_succ n), h.2⟩
  | final =>
    rw [hp] at h
    obtain ⟨m, hm, h⟩ := h
    exact ⟨m, Nat.lt_succ_of_lt hm, h⟩
  | _ =>
    rw [hp] at h
    exact Steady.mono h (Nat.le_succ n)

/-! ## Runs -/

/-- A character that is accepted keeps the log. -/
theorem Sited.accept (h : r.Sited cs n r.afterBlank) (hbefore : r.Before cs n)
    (hc : cs[n]? = some c) (hr : r.accept c = .ok r') : r'.Sited cs (n + 1) r'.afterBlank := by
  have hadvance : (r.advance c).Sited cs n (r.advance c).afterBlank := h
  rcases accept_ok hr with ⟨hstring, hblank, rfl⟩ | ⟨r'', hread, hstep, rfl⟩
  · exact Sited.blank hadvance hstring hc hblank
  · have hlogs : Logs cs n ((r.advance c).step c) := by
      cases hstring : r.phase.inString with
      | true => exact hadvance.step_inString hstring hc
      | false =>
        have hblank := hread hstring
        refine hadvance.step hstring ?_ hc hblank
        rw [hbefore.advance, if_neg (by rintro rfl; cases hblank)]
    rw [hstep] at hlogs
    exact hlogs

theorem sited_initial (ops : List String) (filename : Option String) (source : String)
    (cs : List Char) : (Reader.initial ops filename source).Sited cs 0 false :=
  ⟨⟨filename, source, rfl⟩, rfl⟩

/-- The log of a run over a text. -/
theorem Reaches.sited {ops : List String} {filename : Option String} {source : String}
    {pre : List Char} (h : (Reader.initial ops filename source).Reaches pre r) (hpre : pre <+: cs)
    (hcs : ∀ c ∈ cs, c ≠ '\r') : r.Sited cs pre.length r.afterBlank := by
  have hboth := h.invariant (I := fun n r => r.Before cs n ∧ r.Sited cs n r.afterBlank) hpre
    ⟨before_initial .., sited_initial ..⟩ fun n c r r' hc hr haccept =>
      ⟨hr.1.accept hcs hc haccept, hr.2.accept hr.1 hc haccept⟩
  exact hboth.2

end Reader

end Formulary

import Formulary.Proofs.Reader.Truncation
import Formulary.Proofs.Text.Fronts

/-!
# Operators of a reading

After an operand an operator is read as long as what has been read is the beginning of a registered
one.  Blanks are skipped before it comes to that: they end an operator, even where a registered one
holds a blank.  Only the next character shows whether the operator is made an element or fails.

* `Phase.absorbs`: the characters by which an operand goes on.
* `Reader.Waits`: the state after an operator, and what the next character does.
* `Reader.OperatorRead`: what comes of an operator that has been read.
* `Reader.Reaches.operatorRead`: after an operand the longest characters are read as an operator.
* `Reader.not_read_of_blank`: a registered operator that is not read.
-/

namespace Formulary

variable {ops : List String} {w : List Char} {c : Char} {n : Nat}

/-- The operand that a phase is in or after goes on with a character; `b` says that blanks stand
before the character. -/
def Phase.absorbs (p : Phase) (b : Bool) (c : Char) : Bool :=
  match p with
  | .number => !b && (c.isDigit || c = '.')
  | .numberFraction => !b && c.isDigit
  | .identifier => (!b && isNamePart c) || c = '('
  | _ => false

theorem Phase.inString_of_endsOperand {p : Phase} (h : p.endsOperand) : p.inString = false := by
  cases p with
  | string | stringEscape => cases h
  | _ => rfl

namespace Reader

variable {r r' r₀ : Reader} {pre gap : List Char} {d : Char} {e : ParseError}

/-! ## Steps -/

theorem step_operand (hp : r.phase.endsOperand) (habsorb : r.phase.absorbs r.afterBlank c = false)
    (hops : r.operatorStarts c) : r.step c = .ok (r.flushOperand.beginOperator c) := by
  rw [step, flushOperand]
  cases h : r.phase with
  | number =>
    rw [h, Phase.absorbs, Bool.and_or_distrib_left, Bool.or_eq_false_iff] at habsorb
    simp only [habsorb.1, habsorb.2, afterToken, hops]
    rfl
  | numberFraction =>
    rw [h, Phase.absorbs] at habsorb
    simp only [habsorb, afterToken, hops]
    rfl
  | identifier =>
    rw [h, Phase.absorbs, Bool.or_eq_false_iff, decide_eq_false_iff_not] at habsorb
    simp only [habsorb.1, if_neg habsorb.2, afterToken, hops]
    rfl
  | parenClose | stringEnd => exact if_pos hops
  | _ =>
    rw [h] at hp
    cases hp

theorem step_extend (hp : r.phase = .operator) (hb : r.afterBlank = false)
    (hops : r.operatorExtends c) : r.step c = .ok (r.extendToken c) := by
  rw [step, hp]
  exact if_pos (by rw [hb, hops]; rfl)

theorem step_operator (hp : r.phase = .operator)
    (hops : r.afterBlank = false → r.operatorExtends c = false) : r.step c = r.startTerm c := by
  rw [step, hp]
  refine if_neg ?_
  cases hb : r.afterBlank with
  | true => exact Bool.false_ne_true
  | false =>
    rw [hops hb]
    exact Bool.false_ne_true

def openingMark (c : Char) (id : ElementId) (p : Position) : List ElementMark :=
  if c = '(' then [⟨.symbol, "(", some id, p⟩] else []

/-- A term begins without an element of its own, but for a parenthesis. -/
theorem beginTerm_ok (hc : isTermStart c) {id : ElementId} (helement : r.element = some id) :
    ∃ r', r.beginTerm c = .ok r' ∧
      r'.tree.elementMarks = r.tree.elementMarks ++ openingMark c id r.cursor := by
  rw [beginTerm, openingMark]
  by_cases hparen : c = '('
  · rw [if_pos hparen, if_pos hparen]
    refine ⟨_, rfl, ?_⟩
    have hadjust : (r.adjustParens id (· + 1)).element = some id := helement
    rw [enter, openParen, helement]
    simp only [addElement, hadjust, Tree.elementMarks_addElement, elementMarks_adjustParens]
  · rw [if_neg hparen, if_neg hparen, List.append_nil]
    simp only [isTermStart, Bool.or_eq_true, decide_eq_true_eq] at hc
    split
    · exact ⟨_, rfl, rfl⟩
    split
    · exact ⟨_, rfl, rfl⟩
    split
    · exact ⟨_, rfl, rfl⟩
    split
    · exact ⟨_, rfl, rfl⟩
    · simp_all

theorem startTerm_registered (hp : r.phase = .operator) (hc : isTermStart c)
    (hops : r.token ∈ r.operators) {id : ElementId} (helement : r.element = some id) :
    ∃ r', r.startTerm c = .ok r' ∧ r'.tree.elementMarks = r.tree.elementMarks ++
      ⟨.operator, r.token, some id, r.tokenStart⟩ :: openingMark c id r.cursor := by
  have hflush : (r.flush .operator).element = some id ∧ (r.flush .operator).cursor = r.cursor ∧
      (r.flush .operator).tree.elementMarks =
        r.tree.elementMarks ++ [⟨.operator, r.token, some id, r.tokenStart⟩] := by
    simp only [flush, addElement, helement, Tree.elementMarks_addElement]
    exact ⟨trivial, trivial, trivial⟩
  obtain ⟨r', hr', hmarks⟩ := beginTerm_ok hc hflush.1
  have hplace : r.placeTerm c = .ok (r.flush .operator) := by
    rw [placeTerm, hp]
    exact if_pos (List.contains_iff_mem.mpr hops)
  refine ⟨r', ?_, ?_⟩
  · rw [startTerm, if_pos hc, hplace]
    exact hr'
  · rw [hmarks, hflush.2.1, hflush.2.2, List.append_assoc, List.singleton_append]

theorem startTerm_unknown (hp : r.phase = .operator) (hc : isTermStart c)
    (hops : r.token ∉ r.operators) :
    r.startTerm c = .error ⟨.unknownOperator r.token r.operators c, r.tokenStart⟩ := by
  have hplace : r.placeTerm c = .error ⟨.unknownOperator r.token r.operators c, r.tokenStart⟩ := by
    rw [placeTerm, hp]
    exact if_neg (mt List.contains_iff_mem.mp hops)
  rw [startTerm, if_pos hc, hplace]
  rfl

theorem startTerm_reject (hc : isTermStart c = false) : r.startTerm c = r.reject c :=
  if_neg (by rw [hc]; exact Bool.false_ne_true)

/-! ## Runs -/

/-- Blanks outside strings are skipped. -/
theorem Reaches.blanks (h : r₀.Reaches pre r) (hstring : r.phase.inString = false)
    (hgap : Blanks gap) : ∃ p, r₀.Reaches (pre ++ gap)
      { r with cursor := p, afterBlank := r.afterBlank || !gap.isEmpty } := by
  induction gap generalizing pre r with
  | nil =>
    refine ⟨r.cursor, ?_⟩
    rw [List.append_nil, List.isEmpty_nil, Bool.not_true, Bool.or_false]
    exact h
  | cons b gap ih =>
    obtain ⟨hb, hgap⟩ := List.forall_mem_cons.mp hgap
    obtain ⟨p, hreaches⟩ := ih (h.next (accept_blank hstring hb)) hstring hgap
    refine ⟨p, ?_⟩
    rw [List.append_cons, List.isEmpty_cons, Bool.not_false, Bool.or_true]
    exact hreaches

/-- An operator goes on with the beginning of a registered one. -/
theorem Reaches.extend (h : r₀.Reaches pre r) (hp : r.phase = .operator)
    (hb : r.afterBlank = false) (hw : ∀ c ∈ w, isBlank c = false)
    (hops : beginsSome r.operators (r.token.toList ++ w)) : ∃ p, r₀.Reaches (pre ++ w)
      { r with cursor := p, token := String.ofList (r.token.toList ++ w) } := by
  induction w generalizing pre r with
  | nil =>
    refine ⟨r.cursor, ?_⟩
    rw [List.append_nil, List.append_nil, String.ofList_toList]
    exact h
  | cons c w ih =>
    rw [List.forall_mem_cons] at hw
    have hc : r.operatorExtends c := beginsSome_mono hops ⟨w, by simp⟩
    have haccept := accept_of_step hw.1 (step_extend (r := r.advance c) hp hb hc)
    have htoken : (r.token.push c).toList ++ w = r.token.toList ++ c :: w := by simp
    obtain ⟨p, hreaches⟩ := ih (h.next haccept) hp rfl hw.2 (htoken ▸ hops)
    have hstate : ({ r with
        cursor := p
        afterBlank := false
        token := String.ofList ((r.token.push c).toList ++ w) } : Reader) =
        { r with cursor := p, token := String.ofList (r.token.toList ++ c :: w) } := by
      rw [htoken, ← hb]
    refine ⟨p, ?_⟩
    rw [List.append_cons, ← hstate]
    exact hreaches

/-! ## Readings -/

variable {source : String} {filename : Option String} {k : Nat}

theorem Reaches.operators_eq (h : (Reader.initial ops filename source).Reaches pre r)
    (hpre : ∀ c ∈ pre, c ≠ '\r') : r.operators = ops := by
  obtain ⟨s, -, -, hmirrors⟩ := h.mirrors hpre
  exact hmirrors.operators

/-- In an operator there is an element that it goes under. -/
theorem Reaches.exists_element (h : (Reader.initial ops filename source).Reaches pre r)
    (hpre : ∀ c ∈ pre, c ≠ '\r') (hp : r.phase = .operator) : ∃ id, r.element = some id := by
  obtain ⟨s, -, hstaged, hmirrors⟩ := h.mirrors hpre
  have hphase := hmirrors.phase.symm.trans hp
  obtain ⟨p, nest, b, token, name⟩ := s
  subst hphase
  cases hstaged with
  | operator hrow =>
    obtain ⟨e, es, name, f, hnest⟩ := hrow.exists_row
    exact ⟨_, (hmirrors.shows_of hnest).element_eq⟩

theorem plain_take : ∀ d ∈ (prepare source).1.take n, d ≠ '\r' :=
  fun d hd => prepare_ne source d (List.mem_of_mem_take hd)

theorem Reaches.next_take {cs : List Char} (h : r₀.Reaches (cs.take n) r) (hc : cs[n]? = some c)
    (hr : r.accept c = .ok r') : r₀.Reaches (cs.take (n + 1)) r' := by
  rw [List.take_add_one, hc]
  exact h.next hr

/-- The cursor at a character that is read. -/
theorem Reaches.cursor_advance
    (h : (Reader.initial ops filename source).Reaches ((prepare source).1.take k) r)
    (hk : k ≤ source.toList.length) (hc : isBlank c = false) :
    (r.advance c).cursor = .ofOffset source.toList k := by
  have hbefore := h.before (List.take_prefix ..) (prepare_ne source) (before_initial ..)
  rw [List.length_take_of_le (by rw [length_prepare]; omega)] at hbefore
  rw [hbefore.advance, if_neg (by rintro rfl; cases hc), Position.ofOffset_prepare hk]

theorem blame_of_ne {added : Bool} {rest : List Char} (h : added = true → rest ≠ []) :
    blame added rest e = e := by
  rw [blame]
  split
  · refine if_neg ?_
    rw [Bool.and_eq_true, List.isEmpty_iff]
    exact fun hboth => h hboth.1 hboth.2
  · rfl

/-- A character of the text that is not read is where the whole reading fails. -/
theorem Reaches.read_error
    (h : (Reader.initial ops filename source).Reaches ((prepare source).1.take k) r)
    (hd : (Comment.strip source).toList[k]? = some d) (hblank : isBlank d = false)
    (hstep : (r.advance d).step d = .error e) : Tree.read source ops filename = .error e := by
  have hk := lt_of_getElem?_strip hd
  have hdrop : (prepare source).1.drop k = d :: (prepare source).1.drop (k + 1) :=
    drop_of_getElem? (getElem?_prepare hd hblank)
  have hrest : (prepare source).2 = true → (prepare source).1.drop (k + 1) ≠ [] := by
    intro hadded hnil
    rw [List.drop_eq_nil_iff, length_prepare, added_eq_true_iff.mp hadded] at hnil
    simp at hnil
    omega
  calc Tree.read source ops filename
      = (Reader.initial ops filename source).run (prepare source).2
          ((prepare source).1.take k ++ (prepare source).1.drop k) := by
        rw [List.take_append_drop, Tree.read_eq]
    _ = r.run (prepare source).2 (d :: (prepare source).1.drop (k + 1)) := by
        rw [h.run_eq, hdrop]
    _ = .error e := by
        rw [run, accept_of_step_error hblank hstep]
        exact congrArg Except.error (blame_of_ne hrest)

/-- Blanks of the text are skipped up to the next character. -/
theorem Reaches.skip
    (h : (Reader.initial ops filename source).Reaches ((prepare source).1.take n) r)
    (hn : n ≤ source.toList.length) (hstring : r.phase.inString = false) :
    ∃ p, (Reader.initial ops filename source).Reaches
      ((prepare source).1.take (nextAt (Comment.strip source).toList n))
      { r with
        cursor := p
        afterBlank :=
          r.afterBlank || decide (n < nextAt (Comment.strip source).toList n) } := by
  obtain ⟨gap, hgap, hlength, hdrop⟩ := exists_gap (Comment.strip source).toList n
  obtain ⟨gap', hgap', hlength', htake⟩ := take_prepare_blanks hn hdrop hgap
  obtain ⟨p, hreaches⟩ := h.blanks hstring hgap'
  have hempty : (!gap'.isEmpty) = decide (n < nextAt (Comment.strip source).toList n) := by
    rw [← hlength, ← hlength', Bool.eq_iff_iff]
    simp [List.length_pos_iff]
  rw [← htake, hlength, hempty] at hreaches
  exact ⟨p, hreaches⟩

/-- After an operand that does not go on, the first character of an operator is read. -/
theorem Reaches.beginOperator
    (h : (Reader.initial ops filename source).Reaches ((prepare source).1.take n) r)
    (hp : r.phase.endsOperand) {m : Nat} (hm : nextAt (Comment.strip source).toList n = m)
    (hc : (Comment.strip source).toList[m]? = some c)
    (habsorb : r.phase.absorbs (r.afterBlank || decide (n < m)) c = false)
    (hops : beginsSome ops [c]) :
    ∃ r', (Reader.initial ops filename source).Reaches ((prepare source).1.take (m + 1)) r' ∧
      r'.phase = .operator ∧ r'.afterBlank = false ∧ r'.token = String.singleton c ∧
      r'.tokenStart = .ofOffset source.toList m := by
  have hlt := lt_of_getElem?_strip hc
  have hblank : isBlank c = false := not_blank_nextAt (hm.symm ▸ hc)
  have hstring : r.phase.inString = false := Phase.inString_of_endsOperand hp
  have hn : n ≤ source.toList.length := by
    have := le_nextAt (Comment.strip source).toList n
    omega
  obtain ⟨p, hskip⟩ := h.skip hn hstring
  rw [hm] at hskip
  generalize hr₁ : ({ r with
    cursor := p
    afterBlank := r.afterBlank || decide (n < m) } : Reader) = r₁ at hskip
  have hp₁ : r₁.phase.endsOperand := by
    rw [← hr₁]
    exact hp
  have habsorb₁ : r₁.phase.absorbs r₁.afterBlank c = false := by
    rw [← hr₁]
    exact habsorb
  have hstarts : r₁.operatorStarts c := by
    rw [operatorStarts, beginsOperator, hskip.operators_eq plain_take]
    exact hops
  have hcursor := hskip.cursor_advance hlt.le hblank
  have hstep := step_operand (r := r₁.advance c) hp₁ habsorb₁ hstarts
  refine ⟨_, hskip.next_take (getElem?_prepare hc hblank) (accept_of_step hblank hstep), rfl, rfl,
    rfl, ?_⟩
  rw [← hcursor]
  exact (retains_flushOperand (r := r₁.advance c)).cursor

/-- After an operand the longest beginning of an operator is read. -/
theorem Reaches.operator
    (h : (Reader.initial ops filename source).Reaches ((prepare source).1.take n) r)
    (hp : r.phase.endsOperand) {m : Nat} (hm : nextAt (Comment.strip source).toList n = m)
    (hc : (Comment.strip source).toList[m]? = some c)
    (habsorb : r.phase.absorbs (r.afterBlank || decide (n < m)) c = false)
    (hops : beginsSome ops [c]) :
    ∃ w r', LongestFront ops ((Comment.strip source).toList.drop m) w ∧
      (Reader.initial ops filename source).Reaches ((prepare source).1.take (m + w.length)) r' ∧
      r'.phase = .operator ∧ r'.afterBlank = false ∧ r'.token = String.ofList w ∧
      r'.tokenStart = .ofOffset source.toList m := by
  have hlt := lt_of_getElem?_strip hc
  have hblank : isBlank c = false := not_blank_nextAt (hm.symm ▸ hc)
  obtain ⟨r₁, hfirst, hphase, hb, htoken, hstart⟩ := h.beginOperator hp hm hc habsorb hops
  have hlongest := longestFront_operatorRun (beginsSome_mono hops List.nil_prefix)
    ((Comment.strip source).toList.drop m)
  have hdrop := drop_of_getElem? hc
  have hrun : operatorRun ops [] ((Comment.strip source).toList.drop m) =
      c :: operatorRun ops [c] ((Comment.strip source).toList.drop (m + 1)) := by
    rw [hdrop]
    exact operatorRun_cons_of_begins hblank hops
  rw [hrun] at hlongest
  generalize operatorRun ops [c] ((Comment.strip source).toList.drop (m + 1)) = w at hlongest
  obtain ⟨rest, hrest⟩ := hlongest.front
  have hword : (prepare source).1.take (m + (c :: w).length) =
      (prepare source).1.take (m + 1) ++ w := by
    rw [take_prepare_word hlt.le hrest.symm hlongest.not_blank, List.take_add_one,
      getElem?_prepare hc hblank]
    simp
  have htext : r₁.token.toList ++ w = c :: w := by
    rw [htoken, String.toList_singleton, List.singleton_append]
  obtain ⟨p, hreaches⟩ := hfirst.extend hphase hb (List.forall_mem_cons.mp hlongest.not_blank).2 (by
    rw [hfirst.operators_eq plain_take, htext]
    exact hlongest.begins _ List.prefix_rfl)
  rw [← hword, htext] at hreaches
  exact ⟨c :: w, _, hlongest, hreaches, hphase, hb, rfl, hstart⟩

/-! ### The next character -/

/-- An operator has been read, and the character at the offset `k` comes next. -/
structure Waits (source : String) (ops : List String) (filename : Option String) (k : Nat)
    (w : List Char) (r : Reader) : Prop where
  reaches : (Reader.initial ops filename source).Reaches ((prepare source).1.take k) r
  phase : r.phase = .operator
  operators : r.operators = ops
  token : r.token = String.ofList w
  not_blank : ∀ d, (Comment.strip source).toList[k]? = some d → isBlank d = false
  not_begins : ∀ d, (Comment.strip source).toList[k]? = some d → r.afterBlank = false →
    beginsSome ops (w ++ [d]) = false

namespace Waits

variable (h : r.Waits source ops filename k w)

include h

theorem operatorExtends_eq (d : Char) : r.operatorExtends d = beginsSome ops (w ++ [d]) := by
  rw [operatorExtends, beginsOperator, h.operators, h.token, String.toList_ofList]
  rfl

/-- A term must begin. -/
theorem step_eq (hd : (Comment.strip source).toList[k]? = some d) :
    (r.advance d).step d = (r.advance d).startTerm d :=
  step_operator (r := r.advance d) h.phase fun hb =>
    (h.operatorExtends_eq d).trans (h.not_begins d hd hb)

theorem cursor_eq (hd : (Comment.strip source).toList[k]? = some d) :
    (r.advance d).cursor = .ofOffset source.toList k :=
  h.reaches.cursor_advance (lt_of_getElem?_strip hd).le (h.not_blank d hd)

/-- A registered operator becomes an element, which stays in the tree. -/
theorem registered (hd : (Comment.strip source).toList[k]? = some d) (hterm : isTermStart d)
    (hops : String.ofList w ∈ ops) : ∃ id r',
      (Reader.initial ops filename source).Reaches ((prepare source).1.take (k + 1)) r' ∧
      r'.tree.elementMarks = r.tree.elementMarks ++
        ⟨.operator, String.ofList w, some id, r.tokenStart⟩ ::
          openingMark d id (.ofOffset source.toList k) ∧
      ∀ tree, Tree.read source ops filename = .ok tree →
        r'.tree.elementMarks <+: tree.elementMarks := by
  obtain ⟨id, hid⟩ := h.reaches.exists_element plain_take h.phase
  have hmem : (r.advance d).token ∈ (r.advance d).operators := by
    show r.token ∈ r.operators
    rwa [h.token, h.operators]
  obtain ⟨r', hr', hmarks⟩ := startTerm_registered (r := r.advance d) h.phase hterm hmem hid
  have hblank := h.not_blank d hd
  have hnext := h.reaches.next_take (getElem?_prepare hd hblank)
    (accept_of_step hblank ((h.step_eq hd).trans hr'))
  refine ⟨id, _, hnext, ?_, fun tree htree => ?_⟩
  · rw [h.cursor_eq hd, show (r.advance d).token = _ from h.token] at hmarks
    exact hmarks
  · obtain ⟨r'', hr'', -, rfl⟩ := Tree.exists_reaches htree
    rw [← List.take_append_drop (k + 1) (prepare source).1] at hr''
    exact (hnext.rest hr'').marks

/-- Another operator is unknown. -/
theorem unknown (hd : (Comment.strip source).toList[k]? = some d) (hterm : isTermStart d)
    (hops : String.ofList w ∉ ops) : Tree.read source ops filename =
      .error ⟨.unknownOperator (String.ofList w) ops d, r.tokenStart⟩ := by
  have hmem : (r.advance d).token ∉ (r.advance d).operators := by
    show r.token ∉ r.operators
    rwa [h.token, h.operators]
  have hunknown := startTerm_unknown (r := r.advance d) h.phase hterm hmem
  rw [show (r.advance d).token = _ from h.token,
    show (r.advance d).operators = _ from h.operators] at hunknown
  exact h.reaches.read_error hd (h.not_blank d hd) ((h.step_eq hd).trans hunknown)

/-- A character that begins no term is rejected. -/
theorem rejected (hd : (Comment.strip source).toList[k]? = some d) (hterm : isTermStart d = false) :
    Tree.read source ops filename = .error ⟨.unexpected d, .ofOffset source.toList k⟩ := by
  refine h.reaches.read_error hd (h.not_blank d hd) ?_
  rw [h.step_eq hd, startTerm_reject hterm, reject, h.cursor_eq hd]

/-- At the end of the text the text is too short.  Where a point is added that the operator does not
take up, because of a blank or because no operator goes on with it, the failure is at the end. -/
theorem ended (hend : k = source.toList.length) :
    ∃ p, Tree.read source ops filename = .error ⟨.unexpectedEnd, p⟩ ∧
      (addedPoint source = ['.'] → (r.afterBlank = true ∨ beginsSome ops (w ++ ['.']) = false) →
        p = .ofOffset source.toList source.toList.length) := by
  subst hend
  have hdrop : (prepare source).1.drop source.toList.length = addedPoint source := by
    rw [drop_prepare (Nat.le_refl _), ← Comment.length_strip, List.drop_length, List.nil_append]
    rcases addedPoint_cases source with hadded | hadded <;> rw [hadded] <;> rfl
  have hadded : (prepare source).2 = decide (addedPoint source = ['.']) := by
    rw [Bool.eq_iff_iff, added_eq_true_iff, decide_eq_true_eq]
  have hread : Tree.read source ops filename =
      r.run (decide (addedPoint source = ['.'])) (addedPoint source) := by
    rw [← hadded, ← hdrop, ← h.reaches.run_eq, List.take_append_drop, Tree.read_eq]
  have hp := h.phase
  by_cases hpoint : addedPoint source = ['.'] ∧
      (r.afterBlank = true ∨ beginsSome ops (w ++ ['.']) = false)
  · refine ⟨.ofOffset source.toList source.toList.length, ?_, fun _ _ => rfl⟩
    have hstep := step_operator (r := r.advance '.') hp fun hclose =>
      (h.operatorExtends_eq '.').trans (hpoint.2.resolve_left (Bool.eq_false_iff.mp hclose))
    rw [startTerm_point, reject, h.reaches.cursor_advance (Nat.le_refl _) rfl] at hstep
    rw [hread, hpoint.1, run, accept_of_step_error rfl hstep]
    rfl
  · have hcut : addedPoint source = ['.'] ∨ addedPoint source = [] ∧ r.phase ≠ .stringEscape :=
      (addedPoint_cases source).imp_right fun hnil => ⟨hnil, by simp [hp]⟩
    obtain ⟨e, he, hfault⟩ := run_cut (by simp [hp]) (by simp [hp]) hcut
    rw [hp] at hfault
    obtain ⟨f, p⟩ := e
    obtain rfl : f = .unexpectedEnd := hfault
    exact ⟨p, hread.trans he, fun hadded hleft => absurd ⟨hadded, hleft⟩ hpoint⟩

end Waits

/-- After an operator the reading waits for the next character. -/
theorem Reaches.waits {m : Nat}
    (h : (Reader.initial ops filename source).Reaches ((prepare source).1.take (m + w.length)) r)
    (hlongest : LongestFront ops ((Comment.strip source).toList.drop m) w)
    (hle : m + w.length ≤ source.toList.length) (hp : r.phase = .operator)
    (hb : r.afterBlank = false) (htoken : r.token = String.ofList w) :
    ∃ p, { r with
      cursor := p
      afterBlank := decide (m + w.length < nextAt (Comment.strip source).toList (m + w.length)) :
        Reader }.Waits source ops filename
          (nextAt (Comment.strip source).toList (m + w.length)) w := by
  obtain ⟨p, hskip⟩ := h.skip hle (by rw [hp]; rfl)
  rw [hb, Bool.false_or] at hskip
  refine ⟨p, hskip, hp, h.operators_eq plain_take, htoken, fun d hd => not_blank_nextAt hd,
    fun d hd hclose => hlongest.not_begins ?_ (not_blank_nextAt hd)⟩
  have hadjacent : nextAt (Comment.strip source).toList (m + w.length) = m + w.length :=
    Nat.le_antisymm (Nat.not_lt.mp (of_decide_eq_false hclose)) (le_nextAt ..)
  rw [List.getElem?_drop, ← hadjacent, hd]

/-! ### Operators -/

/-- An operator that stands at the offset `m` has been read, and what comes of it at the next
character: an element, if the operator is registered and a term begins, or else a failure. -/
structure OperatorRead (source : String) (ops : List String) (filename : Option String) (m : Nat)
    (w : List Char) (r : Reader) : Prop where
  longest : LongestFront ops ((Comment.strip source).toList.drop m) w
  reaches : (Reader.initial ops filename source).Reaches ((prepare source).1.take (m + w.length)) r
  phase : r.phase = .operator
  token : r.token = String.ofList w
  registered : ∀ k d, nextAt (Comment.strip source).toList (m + w.length) = k →
    (Comment.strip source).toList[k]? = some d → isTermStart d → String.ofList w ∈ ops →
    ∃ id r', (Reader.initial ops filename source).Reaches ((prepare source).1.take (k + 1)) r' ∧
      r'.tree.elementMarks = r.tree.elementMarks ++
        ⟨.operator, String.ofList w, some id, .ofOffset source.toList m⟩ ::
          openingMark d id (.ofOffset source.toList k) ∧
      ∀ tree, Tree.read source ops filename = .ok tree →
        r'.tree.elementMarks <+: tree.elementMarks
  unknown : ∀ k d, nextAt (Comment.strip source).toList (m + w.length) = k →
    (Comment.strip source).toList[k]? = some d → isTermStart d → String.ofList w ∉ ops →
    Tree.read source ops filename =
      .error ⟨.unknownOperator (String.ofList w) ops d, .ofOffset source.toList m⟩
  rejected : ∀ k d, nextAt (Comment.strip source).toList (m + w.length) = k →
    (Comment.strip source).toList[k]? = some d → isTermStart d = false →
    Tree.read source ops filename = .error ⟨.unexpected d, .ofOffset source.toList k⟩
  ended : ∀ k, nextAt (Comment.strip source).toList (m + w.length) = k →
    (Comment.strip source).toList[k]? = none →
    ∃ p, Tree.read source ops filename = .error ⟨.unexpectedEnd, p⟩ ∧
      (addedPoint source = ['.'] → (m + w.length < k ∨ beginsSome ops (w ++ ['.']) = false) →
        p = .ofOffset source.toList source.toList.length)

/-- After an operand that does not go on with the next character, but an operator with it, the
longest beginning of an operator is read.  It is an element, if it is registered and the next
character begins a term; nothing shorter is tried. -/
theorem Reaches.operatorRead
    (h : (Reader.initial ops filename source).Reaches ((prepare source).1.take n) r)
    (hp : r.phase.endsOperand) {m : Nat} (hm : nextAt (Comment.strip source).toList n = m)
    (hc : (Comment.strip source).toList[m]? = some c)
    (habsorb : r.phase.absorbs (r.afterBlank || decide (n < m)) c = false)
    (hops : beginsSome ops [c]) : ∃ w r', OperatorRead source ops filename m w r' := by
  obtain ⟨w, r', hlongest, hr', hp', hb', htoken, hstart⟩ := h.operator hp hm hc habsorb hops
  have hle : m + w.length ≤ source.toList.length := by
    have hfront := hlongest.front.length_le
    have hlt := lt_of_getElem?_strip hc
    rw [List.length_drop, Comment.length_strip] at hfront
    omega
  obtain ⟨p, hwaits⟩ := hr'.waits hlongest hle hp' hb' htoken
  refine ⟨w, r', hlongest, hr', hp', htoken, ?_, ?_, ?_, ?_⟩
  · rintro k d rfl hd hterm hmem
    rw [← hstart]
    exact hwaits.registered hd hterm hmem
  · rintro k d rfl hd hterm hmem
    rw [← hstart]
    exact hwaits.unknown hd hterm hmem
  · rintro k d rfl hd hterm
    exact hwaits.rejected hd hterm
  · rintro k rfl hnone
    rw [← Comment.length_strip] at hle
    obtain ⟨p, hread, hplace⟩ :=
      hwaits.ended ((nextAt_eq_length hle hnone).trans (Comment.length_strip source))
    exact ⟨p, hread, fun hadded hleft => hplace hadded (hleft.imp_left decide_eq_true)⟩

/-- A text with an operator that is registered with a third character only. -/
def shorterSource : String := "#r{ a = b +* c; }"

theorem Reaches.operatorRead_shorter : ∃ r,
    (Reader.initial ["+", "+*+"] none shorterSource).Reaches
      ((prepare shorterSource).1.take 9) r ∧ r.phase.endsOperand ∧
      nextAt (Comment.strip shorterSource).toList 9 = 10 ∧
      (Comment.strip shorterSource).toList[10]? = some '+' ∧
      r.phase.absorbs (r.afterBlank || decide (9 < 10)) '+' = false ∧
      beginsSome ["+", "+*+"] ['+'] ∧
      ∃ w r', OperatorRead shorterSource ["+", "+*+"] none 10 w r' := by
  obtain ⟨r, hr, hcheck⟩ : ∃ r, (Reader.initial ["+", "+*+"] none shorterSource).Reaches
      ((prepare shorterSource).1.take 9) r ∧
      (r.phase.endsOperand && !r.phase.absorbs (r.afterBlank || decide (9 < 10)) '+') :=
    exists_reaches_of_any
      (p := fun r => r.phase.endsOperand && !r.phase.absorbs (r.afterBlank || decide (9 < 10)) '+')
      (by decide +kernel)
  rw [Bool.and_eq_true, Bool.not_eq_true'] at hcheck
  have hm : nextAt (Comment.strip shorterSource).toList 9 = 10 := by decide +kernel
  have hc : (Comment.strip shorterSource).toList[10]? = some '+' := by decide +kernel
  have hops : beginsSome ["+", "+*+"] ['+'] := by decide +kernel
  exact ⟨r, hr, hcheck.1, hm, hc, hcheck.2, hops, hr.operatorRead hcheck.1 hm hc hcheck.2 hops⟩

/-- The shorter operator is not tried. -/
example : Tree.read shorterSource ["+", "+*+"] none =
    .error ⟨.unknownOperator "+*" ["+", "+*+"] 'c', ⟨10, 1, 11⟩⟩ := by
  decide +kernel

/-- A text with an operator that holds a blank. -/
def spacedSource : String := "#r{ a = 1 + +2; }"

/-- Every beginning of an operator that holds a blank is that of a registered one, and a term
follows, but the blank ends what is read of it. -/
theorem not_read_of_blank :
    (∃ r, (Reader.initial ["+ +"] none spacedSource).Reaches ((prepare spacedSource).1.take 9) r ∧
      (r.phase.endsOperand && !r.phase.absorbs (r.afterBlank || decide (9 < 10)) '+')) ∧
    nextAt (Comment.strip spacedSource).toList 9 = 10 ∧
    "+ +".toList <+: (Comment.strip spacedSource).toList.drop 10 ∧
    (∀ v, v <+: "+ +".toList → beginsSome ["+ +"] v) ∧
    (Comment.strip spacedSource).toList[13]? = some '2' ∧ isTermStart '2' ∧
    Tree.read spacedSource ["+ +"] none = .error ⟨.unexpected '+', ⟨12, 1, 13⟩⟩ := by
  refine ⟨?_, by decide +kernel, by decide +kernel, fun v hv => ?_, by decide +kernel, by decide,
    by decide +kernel⟩
  · exact exists_reaches_of_any
      (p := fun r => r.phase.endsOperand && !r.phase.absorbs (r.afterBlank || decide (9 < 10)) '+')
      (by decide +kernel)
  · exact beginsSome_mono (w := "+ +".toList) (by decide +kernel) hv

end Reader

end Formulary

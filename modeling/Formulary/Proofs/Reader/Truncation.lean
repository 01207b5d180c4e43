import Formulary.Proofs.Reader.Strings
import Formulary.Proofs.Text.Beginning
import Formulary.Proofs.Tree.Positions

/-!
# Texts that are cut off

A text that can be read is no longer read once it is cut off before the end of its root section.
The point that is added then shows what is missing, unless the cut follows a backslash in a string:
the point is taken for the character that the backslash protects.

* `Phase.cutFault`: the fault of a text that ends in a phase.
* `Reader.step_point`, `Reader.Mirrors.run_cut`: the point that is added.
* `Nested.Staged.read_done`: nothing but the final point follows the root section.
* `Tree.CutFault`, `Tree.read_take`: the fault of a text that is cut off.
-/

namespace Formulary

/-! ## The rest of a text -/

namespace Nested

variable {ops : List String} {s s' : Nested} {c d : Char} {cs ds : List Char} {o : EntityOutline}

/-- One blank leads where another one does. -/
theorem accept_blank (hc : isBlank c) (hd : isBlank d) (h : s.accept ops c = some s') :
    ∃ s'', s.accept ops d = some s'' ∧ s''.phase = s'.phase ∧ s''.nest = s'.nest := by
  have hne : ∀ {b : Char}, isBlank b → b ≠ '\\' ∧ b ≠ '"' ∧ b ≠ 't' := by
    rintro b hb
    refine ⟨?_, ?_, ?_⟩ <;> (rintro rfl; cases hb)
  cases hp : s.phase with
  | string =>
    simp only [accept, step, hp, Phase.inString, Bool.not_true, Bool.false_and, hne hc, hne hd,
      if_false] at h ⊢
    cases h
    exact ⟨_, rfl, rfl, rfl⟩
  | stringEscape =>
    -- a blank is not protected by a backslash
    simp [accept, step, unescape, hp, Phase.inString, hne hc] at h
  | _ =>
    simp only [accept, hp, Phase.inString, Bool.not_false, Bool.true_and, hc, hd, if_true] at h ⊢
    cases h
    exact ⟨_, rfl, rfl, rfl⟩

/-- Texts that agree up to a last blank lead to the same phase and nest. -/
theorem read_upToLast (h : UpToLast cs ds) (hs : s.read ops cs = some s') :
    ∃ s'', s.read ops ds = some s'' ∧ s''.phase = s'.phase ∧ s''.nest = s'.nest := by
  cases h with
  | same => exact ⟨s', hs, rfl, rfl⟩
  | @last cs c d hc hd =>
    rw [read_append] at hs ⊢
    obtain ⟨s₁, hs₁, hlast⟩ := Option.bind_eq_some_iff.mp hs
    obtain ⟨s₂, haccept, hend⟩ := Option.bind_eq_some_iff.mp hlast
    cases hend
    obtain ⟨s'', haccept', hphase, hnest⟩ := accept_blank hc hd haccept
    refine ⟨s'', ?_, hphase, hnest⟩
    rw [hs₁, Option.bind_some, read, haccept']
    rfl

/-- Once the root section is closed, it has just been, or the final point has been read. -/
theorem Staged.phase_of_done (h : s.Staged ops) (hn : s.nest = .done o) :
    s.phase = .sectionClose ∨ s.phase = .final := by
  obtain ⟨p, n, b, token, m⟩ := s
  cases hn
  cases h with
  | sectionClose _ => exact .inl rfl
  | final _ => exact .inr rfl
  | sectionMark hn | sectionTitle hn _ => cases hn
  | parenOpen hn | string hn _ | stringEscape hn _ | minus hn | number hn _ | numberPoint hn _
  | numberFraction hn _ | identifier hn _ | parenClose hn | stringEnd hn | operator hn =>
    obtain ⟨_, _, _, _, hrow⟩ := hn.exists_row
    cases hrow

theorem Staged.done_of_final (h : s.Staged ops) (hp : s.phase = .final) :
    ∃ o, s.nest = .done o := by
  obtain ⟨p, n, b, token, m⟩ := s
  cases hp
  cases h with
  | final _ => exact ⟨_, rfl⟩

theorem accept_done (hp : s.phase = .sectionClose ∨ s.phase = .final) (hn : s.nest = .done o)
    (h : s.accept ops c = some s') : (isBlank c ∨ c = '.') ∧
      (s'.phase = .sectionClose ∨ s'.phase = .final) ∧ s'.nest = .done o := by
  rw [accept] at h
  split at h
  · next hblank =>
    cases h
    exact ⟨.inl (Bool.and_eq_true_iff.mp hblank).2, hp, hn⟩
  · obtain ⟨s₁, hstep, rfl⟩ := Option.map_eq_some_iff.mp h
    rcases hp with hp | hp
    · simp only [step, hp, afterSection, hn] at hstep
      split at hstep
      · next hpoint =>
        cases hstep
        exact ⟨.inr hpoint, .inr rfl, hn⟩
      · cases hstep
    · simp only [step, hp] at hstep
      cases hstep

/-- Nothing but blanks and the final point follows the root section. -/
theorem Staged.read_done (h : s.Staged ops) (hn : s.nest = .done o)
    (hs : s.read ops cs = some s') : ∀ c ∈ cs, isBlank c ∨ c = '.' := by
  have hp := h.phase_of_done hn
  clear h
  induction cs generalizing s with
  | nil => exact fun c hc => nomatch hc
  | cons c cs ih =>
    obtain ⟨s₁, haccept, hread⟩ := Option.bind_eq_some_iff.mp hs
    obtain ⟨hc, hp', hn'⟩ := accept_done hp hn haccept
    exact List.forall_mem_cons.mpr ⟨hc, ih hn' hread hp'⟩

end Nested

/-! ## The end of a text -/

/-- The fault of a text that ends in a phase, before the end of its root section. -/
def Phase.cutFault : Phase → Fault
  | .string => .unterminatedString
  | .stringEscape => .badEscape '.'
  | _ => .unexpectedEnd

namespace Reader

variable {ops : List String} {r r' : Reader} {s s' : Nested} {cs : List Char}

theorem startTerm_point : r.startTerm '.' = r.reject '.' := if_neg (by decide)

theorem afterValue_point : r.afterValue '.' = r.reject '.' := if_neg (by decide)

theorem startValue_point : r.startValue '.' = r.reject '.' := by
  rw [startValue, if_neg (by decide), if_neg (by decide), startTerm_point]

theorem startMember_point : r.startMember '.' = r.reject '.' := by
  rw [startMember, if_neg (by simp), if_neg (by decide)]

/-- What a point leads to that follows a text which is cut off: it is rejected, or the text is as
short as before. -/
def AfterPoint (f : Fault) : Except ParseError Reader → Prop :=
  Outcome (fun r => r.phase ≠ .final ∧ r.phase ≠ .stringEscape ∧ r.phase.cutFault = f)
    (fun e => (blame true [] e).fault = f)

theorem afterPoint_reject : AfterPoint .unexpectedEnd (r.reject '.') := rfl

theorem afterPoint_go (p : Phase) (hp : r.phase = p) (hfinal : p ≠ .final)
    (hstring : p.inString = false) : AfterPoint .unexpectedEnd (.ok r) := by
  subst hp
  refine ⟨hfinal, ?_, ?_⟩
  · intro h
    rw [h] at hstring
    cases hstring
  · cases hp : r.phase <;> first | rfl | (rw [hp] at hstring; cases hstring)

theorem afterPoint_afterTerm : AfterPoint .unexpectedEnd (r.afterTerm '.') := by
  rw [afterTerm, afterValue_point]
  exact .ite (fun _ => afterPoint_go .operator rfl (by decide) rfl) fun _ => afterPoint_reject

theorem afterPoint_afterToken (kind : ElementKind) :
    AfterPoint .unexpectedEnd (r.afterToken kind '.') := by
  rw [afterToken, afterValue_point]
  exact .ite (fun _ => afterPoint_go .operator rfl (by decide) rfl) fun _ => afterPoint_reject

/-- The point that is added to a text ends it nowhere but after the root section. -/
theorem step_point (hopen : r.phase = .sectionClose → r.openSections ≠ 0)
    (hfinal : r.phase ≠ .final) : AfterPoint r.phase.cutFault (r.step '.') := by
  rw [step]
  cases hp : r.phase with
  | start | sectionMark =>
    exact .ite (fun h => absurd h (by decide)) fun _ => afterPoint_reject
  | sectionTitle | memberName =>
    exact .ite (fun _ => afterPoint_go _ hp (by decide) rfl) fun _ =>
      .ite (fun h => absurd h (by decide)) fun _ => afterPoint_reject
  | sectionOpen | memberEnd =>
    rw [startMember_point]
    exact afterPoint_reject
  | sectionClose =>
    rw [afterSection, if_neg (hopen hp), afterValue_point]
    exact afterPoint_reject
  | memberEquals | arrayComma =>
    rw [startValue_point]
    exact afterPoint_reject
  | arrayOpen =>
    rw [if_neg (by simp), startValue_point]
    exact afterPoint_reject
  | arrayClose =>
    rw [afterValue_point]
    exact afterPoint_reject
  | parenOpen | callComma =>
    rw [startTerm_point]
    exact afterPoint_reject
  | parenClose | stringEnd => exact afterPoint_afterTerm
  | string =>
    rw [if_neg (by decide), if_neg (by decide)]
    exact ⟨by simp [extendToken, hp], by simp [extendToken, hp], by simp [extendToken, hp]⟩
  | stringEscape =>
    rw [unescape, if_neg (by decide), if_neg (by decide)]
    rfl
  | minus =>
    exact .ite (fun h => absurd h (by decide)) fun _ => afterPoint_reject
  | number =>
    exact .ite (fun _ => afterPoint_go _ hp (by decide) rfl) fun _ =>
      .ite (fun _ => afterPoint_go .numberPoint rfl (by decide) rfl) fun _ =>
        afterPoint_afterToken _
  | numberPoint =>
    exact .ite (fun _ => afterPoint_go .numberFraction rfl (by decide) rfl) fun _ =>
      afterPoint_reject
  | numberFraction =>
    exact .ite (fun _ => afterPoint_go _ hp (by decide) rfl) fun _ => afterPoint_afterToken _
  | operator =>
    rw [startTerm_point]
    exact .ite (fun _ => afterPoint_go _ hp (by decide) rfl) fun _ => afterPoint_reject
  | identifier =>
    exact .ite (fun _ => afterPoint_go _ hp (by decide) rfl) fun _ =>
      .ite (fun h => absurd h (by decide)) fun _ => afterPoint_afterToken _
  | callOpen =>
    rw [if_neg (by decide), startTerm_point]
    exact afterPoint_reject
  | final => exact absurd hp hfinal

/-- The end of a text in a phase that does not end a reading. -/
theorem finish_of_ne (hfinal : r.phase ≠ .final) (hescape : r.phase ≠ .stringEscape) :
    ∃ e, r.finish = .error e ∧ e.fault = r.phase.cutFault := by
  rw [finish]
  cases hp : r.phase with
  | final => exact absurd hp hfinal
  | stringEscape => exact absurd hp hescape
  | _ => exact ⟨_, rfl, rfl⟩

/-- A text that is cut off fails with the fault of its last phase.  Where no point is added to it,
the last character is none that may follow a backslash. -/
theorem run_cut {added : List Char} (hopen : r.phase = .sectionClose → r.openSections ≠ 0)
    (hfinal : r.phase ≠ .final)
    (hadded : added = ['.'] ∨ added = [] ∧ r.phase ≠ .stringEscape) :
    ∃ e, r.run (added = ['.']) added = .error e ∧ e.fault = r.phase.cutFault := by
  rcases hadded with rfl | ⟨rfl, hescape⟩
  · have hpoint : AfterPoint r.phase.cutFault ((r.advance '.').step '.') :=
      step_point (r := r.advance '.') hopen hfinal
    rw [run]
    cases haccept : r.accept '.' with
    | error e =>
      rw [(accept_error haccept).2] at hpoint
      exact ⟨_, rfl, hpoint⟩
    | ok r' =>
      rcases accept_ok haccept with ⟨-, hblank, -⟩ | ⟨r'', -, hstep, rfl⟩
      · cases hblank
      · rw [hstep] at hpoint
        obtain ⟨hfinal', hescape', hfault⟩ := hpoint
        obtain ⟨e, he, hfault'⟩ :=
          finish_of_ne (r := { r'' with afterBlank := false }.pass) hfinal' hescape'
        exact ⟨e, he, hfault'.trans hfault⟩
  · exact finish_of_ne hfinal hescape

/-- A run goes along with a run of the reading over nests. -/
theorem Mirrors.run_append (h : r.Mirrors ops s) (hs : s.Staged ops) (hcs : ∀ c ∈ cs, c ≠ '\r')
    (hread : s.read ops cs = some s') (added : Bool) (rest : List Char) :
    ∃ r' : Reader, r'.Mirrors ops s' ∧ r.run added (cs ++ rest) = r'.run added rest := by
  induction cs generalizing r s with
  | nil =>
    cases hread
    exact ⟨r, h, rfl⟩
  | cons c cs ih =>
    obtain ⟨s₁, haccept, hread⟩ := Option.bind_eq_some_iff.mp hread
    rw [List.forall_mem_cons] at hcs
    rcases (h.accept hs c).cases with ⟨e, -, hy⟩ | ⟨r₁, s₁', hx, hy, hmirrors⟩
    · rw [haccept] at hy
      cases hy
    · rw [haccept] at hy
      cases hy
      rw [List.cons_append, Reader.run, hx]
      exact ih hmirrors (hs.accept hcs.1 haccept) hcs.2 hread

/-- A section that has been closed inside the root section is in an open section. -/
theorem Mirrors.openSections_ne_zero (h : r.Mirrors ops s) (hs : s.Staged ops)
    (hopen : ∀ o, s.nest ≠ .done o) (hp : r.phase = .sectionClose) : r.openSections ≠ 0 := by
  have hphase := h.phase.symm.trans hp
  obtain ⟨p, n, b, token, m⟩ := s
  subst hphase
  cases hs with
  | sectionClose hn =>
    cases hn with
    | inner h' _ => exact Nat.ne_of_gt (h.shows.openSections_pos h'.exists_titled)
    | root hd => exact absurd rfl (hopen _)

end Reader

namespace Tree

variable {ops : List String} {source : String} {filename : Option String} {tree : Tree}
  {s : Nested} {cs front : List Char} {n : Nat} {p : Phase}

/-- The fault of a text that is cut off at the offset `n`, after which its tree still had to be
closed: what is missing is the end of a string or the end of the text.  Directly after a backslash
the fault is in what has been added to the text. -/
structure CutFault (tree : Tree) (cs : List Char) (n : Nat) (f : Fault) : Prop where
  inside : tree.StringAt cs n .inside → f = .unterminatedString
  escaped : tree.StringAt cs n .escaped → f = .badEscape '.'
  outside : ¬ tree.StringAt cs n .inside → ¬ tree.StringAt cs n .escaped → f = .unexpectedEnd

theorem cutFault_of_phase (h : ∀ l, l ≠ .closed → (tree.StringAt cs n l ↔ p.literal = l)) :
    tree.CutFault cs n p.cutFault := by
  have hinside := h .inside (by decide)
  have hescaped := h .escaped (by decide)
  cases p with
  | string =>
    exact ⟨fun _ => rfl, fun h => (nomatch hescaped.mp h), fun h => absurd (hinside.mpr rfl) h⟩
  | stringEscape =>
    exact ⟨fun h => (nomatch hinside.mp h), fun _ => rfl, fun _ h => absurd (hescaped.mpr rfl) h⟩
  | _ => exact ⟨fun h => (nomatch hinside.mp h), fun h => (nomatch hescaped.mp h), fun _ _ => rfl⟩

/-- The reading of a text over nests, as far as an offset before the brace that closes its root
section. -/
theorem exists_nested_take (h : Tree.read source ops filename = .ok tree)
    (hclose : '}' ∈ (prepare source).1.drop n) :
    ∃ s, Nested.initial.read ops ((prepare source).1.take n) = some s ∧
      (∀ o, s.nest ≠ .done o) ∧ tree.CutFault (prepare source).1 n s.phase.cutFault ∧
      (s.phase = .stringEscape → ∃ cs, (prepare source).1.take n = cs ++ ['\\']) := by
  obtain ⟨last, hlast, hfinal, rfl⟩ := exists_reaches h
  have hn : n ≤ (prepare source).1.length := by
    by_contra hlt
    rw [List.drop_eq_nil_of_le (by omega)] at hclose
    cases hclose
  obtain ⟨r, hr, hcontinues⟩ := hlast.exists_at (prepare_ne source) hn
  obtain ⟨s, hs, hstaged, hmirrors⟩ := hr.mirrors fun c hc =>
    prepare_ne source c (List.mem_of_mem_take hc)
  have hsited := hr.sited (List.take_prefix n _) (prepare_ne source)
  rw [List.length_take, Nat.min_eq_left hn] at hsited
  refine ⟨s, hs, fun o ho => ?_, ?_, fun hescape => ?_⟩
  · obtain ⟨s', hs', -, -⟩ := hlast.mirrors (prepare_ne source)
    rw [← List.take_append_drop n (prepare source).1, Nested.read_append, hs] at hs'
    rcases hstaged.read_done ho hs' _ hclose with hblank | hpoint
    · cases hblank
    · cases hpoint
  · have hstrings : last.quotes = last.tree.strings := by
      rw [Reader.quotes, hfinal]
      exact List.append_nil _
    rw [hstrings] at hcontinues
    rw [← hmirrors.phase]
    exact cutFault_of_phase fun l hl => hsited.stringAt_iff hcontinues hl
  · rw [← hmirrors.phase] at hescape
    obtain ⟨-, hliteral⟩ := hsited.literalAt_tokenStart (by rw [hescape]; rfl)
    rw [hescape] at hliteral
    obtain ⟨m, rfl, hback⟩ := exists_of_literalAt_escaped hliteral hn
    refine ⟨(prepare source).1.take m, ?_⟩
    rw [List.take_add_one, hback]
    rfl

/-- A text that ends before its root section is closed fails with the fault of its last phase. -/
theorem read_error_of_nested (hread : Nested.initial.read ops front = some s)
    (hfront : (prepare source).1 = front ++ addedPoint source) (hopen : ∀ o, s.nest ≠ .done o)
    (hadded : addedPoint source = ['.'] ∨ addedPoint source = [] ∧ s.phase ≠ .stringEscape) :
    ∃ e, Tree.read source ops filename = .error e ∧ e.fault = s.phase.cutFault := by
  have hne : ∀ c ∈ front, c ≠ '\r' := fun c hc =>
    prepare_ne source c (hfront ▸ List.mem_append_left _ hc)
  have hstaged := Nested.staged_initial.read hne hread
  obtain ⟨r, hmirrors, hrun⟩ := (Reader.mirrors_initial ops filename source).run_append
    Nested.staged_initial hne hread (prepare source).2 (addedPoint source)
  have hfinal : r.phase ≠ .final := by
    intro hp
    obtain ⟨o, ho⟩ := hstaged.done_of_final (hmirrors.phase.symm.trans hp)
    exact hopen o ho
  rw [← hmirrors.phase] at hadded ⊢
  obtain ⟨e, he, hfault⟩ :=
    Reader.run_cut (hmirrors.openSections_ne_zero hstaged hopen) hfinal hadded
  have hflag : (prepare source).2 = decide (addedPoint source = ['.']) := by
    rw [Bool.eq_iff_iff, added_eq_true_iff, decide_eq_true_iff]
  refine ⟨e, ?_, hfault⟩
  rw [Tree.read_eq, hfront, hrun, hflag, he]

/-- A text that can be read fails once it is cut off before the brace that closes its root section,
except in the middle of a comment opener.  That brace is the last one that is read: the cut is
before it if any brace would be read after the cut. -/
theorem read_take (h : Tree.read source ops filename = .ok tree)
    (hclose : '}' ∈ (prepare source).1.drop n)
    (hcut : ¬ Comment.SplitsOpener source.toList n) (filename' : Option String) :
    ∃ e, Tree.read (String.ofList (source.toList.take n)) ops filename' = .error e ∧
      tree.CutFault (prepare source).1 n e.fault := by
  have hn : n ≤ source.toList.length := by
    have hlength := List.length_pos_of_mem hclose
    have hadded := length_addedPoint_le source
    rw [List.length_drop, length_prepare] at hlength
    omega
  obtain ⟨s, hs, hopen, hfault, hescape⟩ := exists_nested_take h hclose
  obtain ⟨front, hfront, hupTo⟩ := prepare_take hn hcut
  obtain ⟨s', hs', hphase, hnest⟩ := Nested.read_upToLast hupTo hs
  have hadded : addedPoint (String.ofList (source.toList.take n)) = ['.'] ∨
      addedPoint (String.ofList (source.toList.take n)) = [] ∧ s'.phase ≠ .stringEscape := by
    by_cases hp : s'.phase = .stringEscape
    · obtain ⟨cs, hcs⟩ := hescape (hphase.symm.trans hp)
      rw [hcs] at hupTo
      rw [hupTo.eq_of_not_blank rfl] at hfront
      exact .inl (addedPoint_of_backslash hfront)
    · exact (addedPoint_cases _).imp_right fun hnone => ⟨hnone, hp⟩
  obtain ⟨e, he, hsame⟩ := read_error_of_nested hs' hfront (hnest ▸ hopen) hadded
  exact ⟨e, he, by rwa [hsame, hphase]⟩

/-- A text cut off in a string. -/
theorem read_take_string : ∃ tree e, Tree.read wideSource defaultOperators none = .ok tree ∧
    tree.StringAt (prepare wideSource).1 28 .inside ∧
    Tree.read (String.ofList (wideSource.toList.take 28)) defaultOperators none = .error e ∧
    tree.CutFault (prepare wideSource).1 28 e.fault := by
  obtain ⟨tree, h, hstring⟩ : ∃ tree, Tree.read wideSource defaultOperators none = .ok tree ∧
      decide (tree.StringAt (prepare wideSource).1 28 .inside) :=
    Tree.exists_of_any (p := fun tree => decide (tree.StringAt (prepare wideSource).1 28 .inside))
      (by decide +kernel)
  obtain ⟨e, he, hfault⟩ := read_take h (n := 28) (by decide +kernel) (by decide +kernel) none
  exact ⟨tree, e, h, by simpa using hstring, he, hfault⟩

def backslashSource : String := "#r\x7b a = \"\\\\\"; \x7d"

/-- A text cut off behind a backslash in a string fails at the point that has been added. -/
theorem badEscape_of_take : ∃ tree, Tree.read backslashSource [] none = .ok tree ∧
    '}' ∈ (prepare backslashSource).1.drop 10 ∧
    ¬ Comment.SplitsOpener backslashSource.toList 10 ∧
    tree.StringAt (prepare backslashSource).1 10 .escaped ∧
    Tree.read (String.ofList (backslashSource.toList.take 10)) [] none =
      .error ⟨.badEscape '.', ⟨10, 1, 11⟩⟩ := by
  obtain ⟨tree, h, hstring⟩ : ∃ tree, Tree.read backslashSource [] none = .ok tree ∧
      decide (tree.StringAt (prepare backslashSource).1 10 .escaped) :=
    Tree.exists_of_any
      (p := fun tree => decide (tree.StringAt (prepare backslashSource).1 10 .escaped))
      (by decide +kernel)
  exact ⟨tree, h, by decide +kernel, by decide +kernel, by simpa using hstring, by decide +kernel⟩

end Tree

end Formulary

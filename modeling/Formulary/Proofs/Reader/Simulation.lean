import Formulary.Proofs.Reader.Mirror

/-!
# The reading over nests follows the reading over tables

The two readings make the same steps, so they accept the same texts, and the tables of a tree that
was read are those of the document to which the reading over nests comes.

* `Mirrors.step`, `Mirrors.accept`, `Mirrors.run`: the two readings agree.
* `Tree.read_of_nested`, `Tree.read_nested`: a text is read by both or by neither.
-/

namespace Formulary

namespace Reader

variable {ops : List String} {r : Reader} {s : Nested}

/-! ## The step -/

/-- The place of the root section is no part of its nest. -/
theorem Shows.placeRoot {n : Nest} (h : r.Shows n) (position : Position) :
    { r with tree := r.tree.modifyEntity Tree.root fun e => { e with position := position } }.Shows
      n := by
  refine ⟨?_, h.elements, h.current, h.element, h.openArrays, h.openSections⟩
  have hmodify := modify_map (f := fun e : Entity => { e with position := position }) (g := id)
    (p := Entity.unplaced) (fun e => rfl) r.tree.entities.toList Tree.root
  rw [List.modify_id] at hmodify
  rw [← h.entities, Tree.plainEntities, Tree.modifyEntity, Array.toList_modify]
  exact hmodify

/-- The two readings make the same step. -/
theorem Mirrors.step (h : r.Mirrors ops s) (hs : s.Staged ops) (c : Char) :
    Agrees ops (r.step c) (s.step ops c) := by
  have hstaged := hs
  have hphase := h.phase
  have hblank := h.afterBlank
  obtain ⟨p, n, b, token, m⟩ := s
  simp only at hphase hblank
  cases hs with
  | start =>
    simp only [Reader.step, hphase, Nested.step]
    refine .ite (fun _ => ?_) (fun _ => trivial)
    have hshows := h.shows.placeRoot r.cursor
    exact ⟨h.operators, hshows.enter .sectionMark, rfl, h.afterBlank, h.token, h.memberName⟩
  | sectionMark hn =>
    simp only [Reader.step, hphase, Nested.step]
    exact .ite (fun _ => (h.beginToken c).enter .sectionTitle) (fun _ => trivial)
  | sectionTitle hn ht =>
    simp only [Reader.step, hphase, hblank, Nested.step]
    refine .ite (fun _ => h.extendToken c) fun _ => .ite (fun _ => ?_) fun _ => trivial
    cases hn with
    | root => exact h.openSection rfl
    | inner h' hb => exact h.openSection rfl
  | sectionOpen h' =>
    simp only [Reader.step, hphase, Nested.step]
    exact h.startMember rfl c
  | memberEnd h' =>
    simp only [Reader.step, hphase, Nested.step]
    exact h.startMember rfl c
  | memberName h' ht =>
    simp only [Reader.step, hphase, hblank, Nested.step]
    refine .ite (fun _ => h.extendToken c) fun _ => .ite (fun _ => ?_) fun _ => trivial
    exact ⟨h.operators, h.shows.of_same rfl rfl rfl rfl rfl, rfl, rfl, rfl, congrArg some h.token⟩
  | memberEquals h' ht =>
    simp only [Reader.step, hphase, Nested.step]
    exact h.startValue hstaged rfl rfl c
  | arrayOpen h' =>
    have hshows := h.shows
    have hopen : r.openArrays > 0 := hshows.openArrays_pos
    simp only [Reader.step, hphase, Nested.step, hopen, and_true]
    refine .ite (fun _ => ?_) (fun _ => h.startValue hstaged rfl rfl c)
    obtain ⟨e, es, rfl⟩ := h'.exists_outer
    exact (h.move keeps_closeArray hshows.closeArray).enter .arrayClose
  | arrayComma h' =>
    simp only [Reader.step, hphase, Nested.step]
    exact h.startValue hstaged rfl rfl c
  | sectionClose hn =>
    have hshows := h.shows
    simp only [Reader.step, hphase, Nested.step, Reader.afterSection, Nested.afterSection]
    cases hn with
    | inner h' _ =>
      have hopen := hshows.openSections_pos h'.exists_titled
      rw [if_neg (by omega)]
      exact h.afterValue rfl (h.separate_entity rfl h' c)
    | root hd =>
      rw [if_pos hshows.openSections_done]
      exact .ite (fun _ => h.enter .final) (fun _ => trivial)
  | arrayClose h' _ =>
    simp only [Reader.step, hphase, Nested.step]
    exact h.afterValue rfl (h.separate_entity rfl h' c)
  | parenOpen hn =>
    simp only [Reader.step, hphase, Nested.step]
    exact h.startTerm hstaged rfl c
  | callComma h' hb hcalls hrow =>
    simp only [Reader.step, hphase, Nested.step]
    exact h.startTerm hstaged rfl c
  | callOpen h' hb hcalls =>
    simp only [Reader.step, hphase, Nested.step]
    exact .ite (fun _ => h.afterValue rfl (h.separate_row rfl c)) fun _ => h.startTerm hstaged rfl c
  | string hn ht =>
    obtain ⟨e, es, name, f, rfl⟩ := hn.exists_row
    simp only [Reader.step, hphase, Nested.step]
    exact .ite (fun _ => h.enter .stringEscape) fun _ =>
      .ite (fun _ => (h.flush rfl .string).enter .stringEnd) fun _ => h.extendToken c
  | stringEscape hn ht =>
    simp only [Reader.step, hphase, Nested.step, Reader.unescape, Nested.unescape]
    exact .ite (fun _ => (h.extendToken c).enter .string) fun _ =>
      .ite (fun _ => (h.extendToken '\t').enter .string) fun _ => trivial
  | minus hn =>
    simp only [Reader.step, hphase, Nested.step]
    exact .ite (fun _ => (h.extendToken c).enter .number) (fun _ => trivial)
  | number hn ht =>
    obtain ⟨e, es, name, f, rfl⟩ := hn.exists_row
    simp only [Reader.step, hphase, hblank, Nested.step]
    exact .ite (fun _ => h.extendToken c) fun _ =>
      .ite (fun _ => (h.extendToken c).enter .numberPoint) fun _ =>
        h.afterToken hstaged rfl rfl .number c
  | numberPoint hn ht =>
    simp only [Reader.step, hphase, hblank, Nested.step]
    exact .ite (fun _ => (h.extendToken c).enter .numberFraction) (fun _ => trivial)
  | numberFraction hn ht =>
    obtain ⟨e, es, name, f, rfl⟩ := hn.exists_row
    simp only [Reader.step, hphase, hblank, Nested.step]
    exact .ite (fun _ => h.extendToken c) fun _ => h.afterToken hstaged rfl rfl .number c
  | operator hn =>
    have htoken : r.token = token := h.token
    simp only [Reader.step, hphase, hblank, Nested.step, operatorExtends, beginsOperator,
      h.operators, htoken]
    exact .ite (fun _ => h.extendToken c) fun _ => h.startTerm hstaged rfl c
  | identifier hn ht =>
    obtain ⟨e, es, name, ⟨i, outer⟩, rfl⟩ := hn.exists_row
    simp only [Reader.step, hphase, hblank, Nested.step]
    exact .ite (fun _ => h.extendToken c) fun _ => .ite (fun _ => h.openCall rfl) fun _ =>
      h.afterToken hstaged rfl rfl .identifier c
  | parenClose hn =>
    simp only [Reader.step, hphase, Nested.step]
    exact h.afterTerm hstaged rfl c
  | stringEnd hn =>
    simp only [Reader.step, hphase, Nested.step]
    exact h.afterTerm hstaged rfl c
  | final hd =>
    simp only [Reader.step, hphase, Nested.step]
    trivial

/-! ## Runs -/

theorem Mirrors.advance (h : r.Mirrors ops s) (c : Char) : (r.advance c).Mirrors ops s :=
  ⟨h.operators, h.shows.of_same rfl rfl rfl rfl rfl, h.phase, h.afterBlank, h.token, h.memberName⟩

theorem Mirrors.pass (h : r.Mirrors ops s) (b : Bool) :
    { r with afterBlank := b }.pass.Mirrors ops { s with afterBlank := b } :=
  ⟨h.operators, h.shows.of_same rfl rfl rfl rfl rfl, h.phase, rfl, h.token, h.memberName⟩

theorem Mirrors.accept (h : r.Mirrors ops s) (hs : s.Staged ops) (c : Char) :
    Agrees ops (r.accept c) (s.accept ops c) := by
  have hstep := (h.advance c).step hs c
  have hskip : (!(r.advance c).phase.inString && isBlank c) = (!s.phase.inString && isBlank c) := by
    rw [(h.advance c).phase]
  simp only [Reader.accept, Nested.accept, hskip]
  refine .ite (fun _ => (h.advance c).pass true) (fun _ => ?_)
  rcases hstep.cases with ⟨err, hx, hy⟩ | ⟨r', s', hx, hy, hmirrors⟩
  · rw [hx, hy]
    trivial
  · rw [hx, hy]
    exact hmirrors.pass false

/-- The two readings succeed on the same characters. -/
theorem Mirrors.run {cs : List Char} (h : r.Mirrors ops s) (hs : s.Staged ops)
    (hcs : ∀ c ∈ cs, c ≠ '\r') (added : Bool) :
    (s.read ops cs = none ∧ ∃ err, r.run added cs = .error err) ∨
      ∃ (s' : Nested) (r' : Reader),
        s.read ops cs = some s' ∧ r'.Mirrors ops s' ∧ r.run added cs = r'.finish := by
  induction cs generalizing r s with
  | nil => exact .inr ⟨s, r, rfl, h, rfl⟩
  | cons c cs ih =>
    rw [List.forall_mem_cons] at hcs
    rw [Reader.run, Nested.read]
    rcases (h.accept hs c).cases with ⟨err, hx, hy⟩ | ⟨r', s', hx, hy, hmirrors⟩
    · rw [hx, hy]
      exact .inl ⟨rfl, _, rfl⟩
    · rw [hx, hy]
      exact ih hmirrors (hs.accept hcs.1 hy) hcs.2

/-- Before the first character. -/
theorem mirrors_initial (ops : List String) (filename : Option String) (source : String) :
    (Reader.initial ops filename source).Mirrors ops Nested.initial :=
  ⟨rfl, ⟨rfl, rfl, rfl, element_of_none rfl, rfl, rfl⟩, rfl, rfl, rfl, rfl⟩

end Reader

/-! ## Trees -/

/-- The tables of a tree are those of an outline. -/
def Tree.Holds (tree : Tree) (o : EntityOutline) : Prop :=
  tree.plainEntities = entitiesOf 0 (o.rose.cells none 0) ∧
    tree.plainElements = elementsOf 0 0 (o.rose.cells none 0)

theorem Tree.Holds.outline {tree : Tree} {o : EntityOutline} (h : tree.Holds o) :
    tree.outline = o := outline_of_tables h.1 h.2

theorem plainBreaks_ne (cs : List Char) : ∀ c ∈ plainBreaks cs, c ≠ '\r' := by
  intro c hc
  obtain ⟨i, hi, rfl⟩ := List.mem_iff_getElem.mp hc
  have hget : (plainBreaks cs)[i] = plainBreak _ _ := List.getElem_zipWith
  rw [hget, plainBreak]
  split
  · split <;> decide
  · assumption

theorem prepare_ne (source : String) : ∀ c ∈ (prepare source).1, c ≠ '\r' := by
  rw [prepare]
  split <;> exact plainBreaks_ne _

variable {ops : List String} {source : String}

theorem Tree.read_eq (source : String) (ops : List String) (filename : Option String) :
    Tree.read source ops filename =
      (Reader.initial ops filename source).run (prepare source).2 (prepare source).1 := rfl

/-- A text that can be read to its end over nests has a tree with that outline. -/
theorem Tree.read_of_nested (filename : Option String) {s : Nested} {o : EntityOutline}
    (h : Nested.initial.read ops (prepare source).1 = some s) (hp : s.phase = .final)
    (hn : s.nest = .done o) :
    ∃ tree, Tree.read source ops filename = .ok tree ∧ tree.Holds o := by
  rcases (Reader.mirrors_initial ops filename source).run Nested.staged_initial (prepare_ne source)
    (prepare source).2 with ⟨hnone, -⟩ | ⟨s', r', hsome, hr, hrun⟩
  · rw [h] at hnone
    cases hnone
  · rw [h] at hsome
    cases hsome
    have hshows := hr.shows
    rw [hn] at hshows
    refine ⟨r'.tree, ?_, hshows.entities, hshows.elements⟩
    rw [Tree.read_eq, hrun, Reader.finish, hr.phase, hp]

/-- The tree of a text holds the outline of a valid document, to which the reading over nests
comes. -/
theorem Tree.read_nested {tree : Tree} {filename : Option String}
    (h : Tree.read source ops filename = .ok tree) :
    ∃ (s : Nested) (d : Document), Nested.initial.read ops (prepare source).1 = some s ∧
      s.phase = .final ∧ s.nest = .done d.outline ∧ d.valid ops ∧ tree.Holds d.outline := by
  rcases (Reader.mirrors_initial ops filename source).run Nested.staged_initial (prepare_ne source)
    (prepare source).2 with ⟨-, err, herr⟩ | ⟨s, r, hsome, hr, hrun⟩
  · rw [Tree.read_eq, herr] at h
    cases h
  · rw [Tree.read_eq, hrun, Reader.finish] at h
    have hstaged := Nested.staged_initial.read (prepare_ne source) hsome
    split at h
    · next hphase =>
      cases h
      obtain ⟨p, n, b, token, m⟩ := s
      obtain rfl : p = .final := hr.phase.symm.trans hphase
      cases hstaged with
      | @final d _ hd =>
        exact ⟨_, d, hsome, rfl, rfl, hd, hr.shows.entities, hr.shows.elements⟩
    · cases h
    · cases h
    · cases h

end Formulary

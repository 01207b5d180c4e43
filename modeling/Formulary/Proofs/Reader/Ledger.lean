import Formulary.Proofs.Reader.Moves
import Formulary.Proofs.Reader.Strings

/-!
# What a step counts

The counts of a state go up by one where a bracket is opened and down by one where it is closed, and
never otherwise.  So no count goes down from zero.

* `Reader.count`: the counts of a state.
* `Reader.Ledger`: how a character changes them.
* `Reader.Mirrors.ledger`: every character that is read does so.
* `Reader.Mirrors.leaves`: where an expression is left.
-/

namespace Formulary

open Nest OpenFormula

/-! ## Nests -/

namespace Nest

def depth : Nest → Nat
  | row _ _ _ f => f.depth
  | _ => 0

def count (n : Nest) : Bracket → Nat
  | .array => n.opened.countP OpenEntity.isArray
  | .sect => n.opened.countP OpenEntity.isTitled
  | .paren => n.depth

end Nest

variable {c : Char} {p : Phase} {n n' : Nest} {e : OpenEntity} {es : List OpenEntity}
  {name : Option String} {f f' : OpenFormula}

/-- Only parentheses are opened and closed in an expression. -/
theorem OpenFormula.Moves.paren (h : f.Moves p f') (b : Bracket) :
    (p.opens = some b → b = .paren) ∧ (p.closes = some b → b = .paren) := by
  cases h with
  | within hopens hcloses _ => simp [hopens, hcloses]
  | openParen hopens hcloses _ =>
    rw [hopens, hcloses]
    exact ⟨fun h => (Option.some.inj h).symm, nofun⟩
  | closeParen | closeCall => exact ⟨nofun, fun h => (Option.some.inj h).symm⟩

theorem OpenFormula.Moves.depth (h : f.Moves p f') :
    f'.depth + (if p.closes = some .paren then 1 else 0) =
      f.depth + (if p.opens = some .paren then 1 else 0) := by
  cases h with
  | within hopens hcloses h => simp [hopens, hcloses, h]
  | openParen hopens hcloses h => simp [hopens, hcloses, h]
  | closeParen =>
    simp only [OpenFormula.depth, Phase.opens, Phase.closes, if_true, reduceCtorEq, if_false]
    omega
  | closeCall =>
    simp only [OpenFormula.depth, outerDepth, Phase.opens, Phase.closes, if_true, reduceCtorEq,
      if_false]
    omega

theorem OpenFormula.Moves.count (h : f.Moves p f') (hopened : n'.opened = n.opened)
    (hdepth : n.depth = f.depth) (hdepth' : n'.depth = f'.depth) (b : Bracket) :
    n'.count b + (if p.closes = some b then 1 else 0) =
      n.count b + (if p.opens = some b then 1 else 0) := by
  by_cases hb : b = .paren
  · subst hb
    show n'.depth + _ = n.depth + _
    rw [hdepth, hdepth', h.depth]
  · have hcount : n'.count b = n.count b := by
      cases b with
      | paren => exact absurd rfl hb
      | array => rw [Nest.count, Nest.count, hopened]
      | sect => rw [Nest.count, Nest.count, hopened]
    rw [hcount, if_neg fun hcloses => hb ((h.paren b).2 hcloses),
      if_neg fun hopens => hb ((h.paren b).1 hopens)]

theorem Nest.Moves.count (h : Nest.Moves c p n n') (b : Bracket) :
    n'.count b + (if p.closes = some b then 1 else 0) =
      n.count b + (if p.opens = some b then 1 else 0) := by
  induction h with
  | stay _ hopens hcloses => simp [hopens, hcloses]
  | openArray | openUntitled | openSection | closeArray =>
    cases b <;> simp [Nest.count, Nest.depth, Nest.opened, List.countP_cons, Phase.opens,
      Phase.closes]
  | @closeSection es =>
    cases es <;> cases b <;> simp [Nest.count, Nest.depth, Nest.opened, Nest.close,
      List.countP_cons, Phase.opens, Phase.closes]
  | @row _ e es name f f' h =>
    have hrow : (Nest.row e es name f').opened = (Nest.row e es name f).opened := rfl
    exact h.count hrow rfl rfl b
  | @enter _ e es name f _ h =>
    have hrow : (Nest.row e es name f).opened = (Nest.entity e es).opened := rfl
    exact h.count hrow rfl rfl b
  | @leave p e es name row row' n' _ h ih =>
    have hcount : (Nest.row e es name ⟨⟨row, 0⟩, []⟩).count b =
        (Nest.entity (e.add (.expression name row')) es).count b := by
      cases b <;> simp [Nest.count, Nest.depth, Nest.opened, List.countP_cons, OpenFormula.depth,
        outerDepth]
    rw [hcount]
    exact ih
  | final => rfl

/-! ## Closing a parenthesis -/

/-- The parenthesis that is closed is one of the innermost row, or the call around it. -/
theorem OpenFormula.Moves.parenClose (h : f.Moves .parenClose f') :
    (f.outer = f'.outer ∧ f.inner.parens = f'.inner.parens + 1) ∨
      ∃ call o, f.outer = (call, o) :: f'.outer ∧ f'.inner.parens = o.parens := by
  cases h with
  | within _ hcloses _ => cases hcloses
  | openParen hopens _ _ => cases hopens
  | closeParen => exact .inl ⟨rfl, rfl⟩
  | closeCall => exact .inr ⟨_, _, rfl, rfl⟩

theorem OpenFormula.Moves.not_blank : ¬ OpenFormula.blank.Moves .parenClose f := by
  intro h
  rcases h.parenClose with ⟨-, hparens⟩ | ⟨call, o, houter, -⟩
  · cases hparens
  · cases houter

theorem Nest.Moves.exists_row (h : Nest.Moves c .parenClose n n') :
    ∃ e es name f f', n = .row e es name f ∧ n' = .row e es name f' ∧ f.Moves .parenClose f' := by
  cases h with
  | stay _ _ hcloses => cases hcloses
  | row h => exact ⟨_, _, _, _, _, rfl, rfl, h⟩
  | enter _ h => exact absurd h OpenFormula.Moves.not_blank
  | leave _ h =>
    cases h with
    | stay _ _ hcloses => cases hcloses
    | enter _ h => exact absurd h OpenFormula.Moves.not_blank

/-! ## Leaving an expression -/

/-- An expression is left only where nothing is open in it. -/
theorem Nest.Moves.leaves (h : Nest.Moves c p (.row e es name f) n')
    (hne : n'.current ≠ place (e :: es)) : ∃ row, f = ⟨⟨row, 0⟩, []⟩ := by
  cases h with
  | row h => exact absurd rfl hne
  | leave => exact ⟨_, rfl⟩

theorem Nested.Staged.document {ops : List String} {s : Nested} {root : EntityOutline}
    (h : s.Staged ops) (hn : s.nest = .done root) : ∃ d : Document, root = d.outline := by
  obtain ⟨p, n, b, token, m⟩ := s
  obtain rfl : n = _ := hn
  cases h with
  | sectionClose hclosed =>
    cases hclosed with
    | root hd => exact ⟨_, rfl⟩
  | sectionMark hn | sectionTitle hn _ => cases hn
  | final hd => exact ⟨_, rfl⟩
  | parenOpen hn | string hn _ | stringEscape hn _ | minus hn | number hn _ | numberPoint hn _
  | numberFraction hn _ | identifier hn _ | parenClose hn | stringEnd hn | operator hn => cases hn

/-! ## States -/

namespace Reader

variable {ops : List String} {r r' : Reader} {s : Nested}

def depth (r : Reader) : Nat :=
  match r.entity.content with
  | .expression _ openParens => openParens
  | _ => 0

def count (r : Reader) : Bracket → Nat
  | .array => r.openArrays
  | .sect => r.openSections
  | .paren => r.depth

/-- A character opens a bracket, closes one that is counted, or does neither. -/
structure Ledger (r r' : Reader) : Prop where
  count : ∀ b, r'.count b + (if r'.phase.closes = some b then 1 else 0) =
    r.count b + (if r'.phase.opens = some b then 1 else 0)
  /-- A parenthesis is counted under the element in which it is closed, too. -/
  element : r'.phase = .parenClose → r'.current = r.current ∧ ∃ id, r'.element = some id ∧
    (r.tree.element id).openParens = (r'.tree.element id).openParens + 1

theorem Shows.content_done {d : Document} (h : r.Shows (.done d.outline)) :
    ∃ title members, r.entity.content = .sect title members := by
  have hcurrent : r.current = 0 := h.current
  have hentities : r.tree.plainEntities = [] ++ _ :: _ := h.entities
  have he := Tree.entity_of_eq hentities
  rw [Reader.entity, hcurrent]
  exact ⟨_, _, (congrArg Entity.content he :)⟩

theorem depth_of_isExpression (h : r.entity.content.isExpression = false) : r.depth = 0 := by
  rw [depth]
  split
  · next hcontent =>
    rw [hcontent] at h
    cases h
  · rfl

theorem Mirrors.count (h : r.Mirrors ops s) (hs : s.Staged ops) (b : Bracket) :
    r.count b = s.nest.count b := by
  have hshows := h.shows
  cases b with
  | array => exact hshows.openArrays
  | sect => exact hshows.openSections
  | paren =>
    show r.depth = s.nest.depth
    cases hn : s.nest with
    | row e es name f =>
      rw [hn] at hshows
      rw [depth, hshows.content_row, Nest.depth]
    | entity e es =>
      rw [hn] at hshows
      exact depth_of_isExpression hshows.isExpression_entity
    | done root =>
      obtain ⟨d, rfl⟩ := hs.document hn
      rw [hn] at hshows
      obtain ⟨title, members, hcontent⟩ := hshows.content_done
      exact depth_of_isExpression (by rw [hcontent]; rfl)

theorem Mirrors.accept_cases (h : r.Mirrors ops s) (hs : s.Staged ops)
    (haccept : r.accept c = .ok r') : ∃ s', s.accept ops c = some s' ∧ r'.Mirrors ops s' ∧
      ((isBlank c ∧ s'.nest = s.nest) ∨ Nest.Moves c r'.phase s.nest s'.nest) := by
  rcases (h.accept hs c).cases with ⟨e, hx, -⟩ | ⟨r'', s', hx, hy, hmirrors⟩
  · rw [haccept] at hx
    cases hx
  · rw [haccept] at hx
    cases hx
    refine ⟨s', hy, hmirrors, ?_⟩
    rw [Nested.accept] at hy
    split at hy
    · next hskip =>
      cases hy
      exact .inl ⟨((Bool.and_eq_true _ _).mp hskip).2, rfl⟩
    · obtain ⟨s₁, hstep, rfl⟩ := Option.map_eq_some_iff.mp hy
      rw [hmirrors.phase]
      have hmoves := hs.moves hstep
      exact .inr hmoves

/-- Every character that is read is counted as its phase says. -/
theorem Mirrors.ledger (h : r.Mirrors ops s) (hs : s.Staged ops) {s' : Nested}
    (h' : r'.Mirrors ops s') (hs' : s'.Staged ops)
    (hmoves : Nest.Moves c r'.phase s.nest s'.nest) : r.Ledger r' where
  count b := by
    rw [h.count hs, h'.count hs']
    exact hmoves.count b
  element hp := by
    rw [hp] at hmoves
    obtain ⟨e, es, name, f, f', hn, hn', hf⟩ := hmoves.exists_row
    have hshows := h.shows_of hn
    have hshows' := h'.shows_of hn'
    let id := Frame.next (first (e :: es)) (outerFrames f'.outer)
    obtain ⟨children', hc'⟩ := hshows'.tables.element_at []
    have hparens' : (r'.tree.element id).openParens = f'.inner.parens :=
      congrArg Element.openParens hc'
    have htables := hshows.tables
    refine ⟨hshows'.current.trans hshows.current.symm, id, hshows'.element_eq, ?_⟩
    rw [hparens']
    rcases hf.parenClose with ⟨houter, hparens⟩ | ⟨call, o, houter, hparens⟩
    · rw [frames, houter] at htables
      obtain ⟨children, hc⟩ := htables.element_at []
      rw [← hparens]
      exact congrArg Element.openParens hc
    · rw [frames, houter] at htables
      obtain ⟨children, hc⟩ := htables.element_at [_, _]
      rw [hparens]
      exact congrArg Element.openParens hc

theorem Mirrors.leaves (h : r.Mirrors ops s) {s' : Nested} (h' : r'.Mirrors ops s')
    (hmoves : Nest.Moves c r'.phase s.nest s'.nest) (hn : s.nest = .row e es name f)
    (hne : r'.current ≠ r.current) : ∃ row, f = ⟨⟨row, 0⟩, []⟩ := by
  rw [hn] at hmoves
  refine hmoves.leaves fun hcurrent => hne ?_
  rw [h'.shows.current, hcurrent, (h.shows_of hn).current]
  rfl

end Reader

end Formulary

import Formulary.Proofs.Reader.Reading
import Formulary.Proofs.Reader.Simulation
import Formulary.Proofs.Reader.Sited

/-!
# Strings in the middle of a reading

The phase of a reading says whether it stands in a string.  The strings of the tree that is read in
the end say the same: those that begin before an offset have been closed there, but for the one that
the reading is in.

* `Reader.Reaches.mirrors`: the states of a run mirror those of the reading over nests.
* `Continues`, `Reader.Reaches.exists_at`: a run over a beginning of the text, and the strings that
  begin after it.
* `Reader.Sited.closed_strings`: the strings in the tree are closed.
* `Tree.StringAt`, `Reader.Sited.stringAt_iff`: strings of a tree that are open at an offset.
-/

namespace Formulary

variable {cs : List Char} {k n : Nat}

/-- After a backslash in a string the last character is the backslash. -/
theorem exists_of_literalAt_escaped (h : literalAt cs k n = .escaped) (hn : n ≤ cs.length) :
    ∃ m, n = m + 1 ∧ cs[m]? = some '\\' := by
  have hlt := lt_of_literalAt (by rw [h]; decide)
  obtain ⟨m, rfl⟩ : ∃ m, n = m + 1 := ⟨n - 1, by omega⟩
  refine ⟨m, rfl, ?_⟩
  rcases Nat.eq_or_lt_of_le (Nat.le_of_lt_succ hlt) with rfl | hkm
  · rw [literalAt_self_succ] at h
    cases h
  · have hc := List.getElem?_eq_getElem (show m < cs.length by omega)
    rw [literalAt_succ hkm hc] at h
    rw [hc]
    cases hl : literalAt cs k m <;> grind [Literal.next]

/-- How far a string has been read in a phase; outside strings none is open. -/
def Phase.literal : Phase → Literal
  | .string => .inside
  | .stringEscape => .escaped
  | _ => .closed

theorem Phase.inString_iff {p : Phase} : p.inString ↔ p.literal ≠ .closed := by
  cases p <;> decide

namespace Tree

/-- A string of a tree begins before the offset `n` and has been read as far as `l` there. -/
def StringAt (tree : Tree) (cs : List Char) (n : Nat) (l : Literal) : Prop :=
  ∃ p ∈ tree.strings, p.offset < n ∧ literalAt cs p.offset n = l

instance (tree : Tree) (cs : List Char) (n : Nat) (l : Literal) :
    Decidable (tree.StringAt cs n l) :=
  inferInstanceAs (Decidable (∃ p ∈ tree.strings, _ ∧ _))

theorem mem_strings {tree : Tree} {p : Position} :
    p ∈ tree.strings ↔ ∃ m ∈ tree.elementMarks, m.kind = .string ∧ m.position = p := by
  simp [strings, and_assoc]

end Tree

/-- Some places are followed by others from the offset `n` on. -/
def Continues (n : Nat) (ps qs : List Position) : Prop :=
  ∃ later, qs = ps ++ later ∧ ∀ p ∈ later, n ≤ p.offset

theorem Continues.refl (n : Nat) (ps : List Position) : Continues n ps ps :=
  ⟨[], (List.append_nil ps).symm, by simp⟩

theorem Continues.trans {m : Nat} {ps qs rs : List Position} (h : Continues n ps qs)
    (h' : Continues m qs rs) (hm : n ≤ m) : Continues n ps rs := by
  obtain ⟨later, rfl, hlater⟩ := h
  obtain ⟨last, rfl, hlast⟩ := h'
  refine ⟨later ++ last, List.append_assoc .., fun p hp => ?_⟩
  rcases List.mem_append.mp hp with hp | hp
  · exact hlater p hp
  · exact Nat.le_trans hm (hlast p hp)

/-! ## Closed strings -/

/-- The strings in a log are closed. -/
theorem Log.closed {es : List EntityMark} {ms : List ElementMark} {m : ElementMark}
    (h : Log cs n es ms) (hm : m ∈ ms) (hkind : m.kind = .string) :
    literalAt cs m.position.offset n = .closed := by
  obtain ⟨i, hi⟩ := List.mem_iff_getElem?.mp hm
  have hmeans := (h.sited i m hi).means
  cases hmeans with
  | token hspells =>
    rw [hkind] at hspells
    cases hspells with
    | word hword _ _ => cases hword
    | string _ hclosed => exact hclosed
  | node hkind' _ _ | argument hkind' _ _ | further hkind' _ _ _ _ =>
    rw [hkind] at hkind'
    cases hkind'

/-- What waits for a term is no string. -/
theorem Awaits.closed {es : List EntityMark} {ms : List ElementMark} {element : Option Nat}
    {m : ElementMark} (h : Awaits cs k es ms element) (hm : m ∈ ms) (hkind : m.kind = .string) :
    literalAt cs m.position.offset k = .closed := by
  cases h with
  | steady h _ => exact h.closed hm hkind
  | expression h _ | further h _ _ _ _ =>
    rcases List.mem_append.mp hm with hm | hm
    · exact h.closed hm hkind
    · rw [List.mem_singleton.mp hm] at hkind
      cases hkind

namespace Reader

variable {ops : List String} {filename : Option String} {source : String} {r r' : Reader}
  {pre : List Char} {c : Char} {b : Bool} {l : Literal}

theorem Ready.closed_strings (h : r.Ready cs k) (hk : k ≤ n) :
    ∀ p ∈ r.tree.strings, literalAt cs p.offset n = .closed := by
  intro p hp
  obtain ⟨m, hm, hkind, rfl⟩ := Tree.mem_strings.mp hp
  exact literalAt_closed (Awaits.closed h hm hkind) hk

theorem Holding.closed_strings {kind : ElementKind} (h : r.Holding cs n b kind) :
    ∀ p ∈ r.tree.strings, literalAt cs p.offset n = .closed := by
  obtain ⟨k, -, hready, w, bs, hw, -, -, hdrop⟩ := h
  have hle := (Stands.of_eq hw.ne_nil hdrop).le
  exact hready.closed_strings (by omega)

/-- The strings in the tree have been closed before the next character. -/
theorem Sited.closed_strings (h : r.Sited cs n b) :
    ∀ p ∈ r.tree.strings, literalAt cs p.offset n = .closed := by
  rw [Sited] at h
  cases hp : r.phase with
  | start =>
    rw [hp] at h
    obtain ⟨⟨filename, source, htree⟩, -⟩ := h
    rw [htree]
    intro p hp
    cases hp
  | string | stringEscape =>
    rw [hp] at h
    obtain ⟨k, hk, -, hready, -, -⟩ := h
    exact hready.closed_strings (Nat.le_of_lt hk)
  | minus =>
    rw [hp] at h
    exact h.2.closed_strings
  | number | numberPoint | numberFraction | operator | identifier =>
    rw [hp] at h
    exact Holding.closed_strings h
  | callComma =>
    rw [hp] at h
    exact h.1.ready.closed_strings (Nat.le_refl n)
  | final =>
    rw [hp] at h
    obtain ⟨m, hm, hsteady⟩ := h
    exact hsteady.ready.closed_strings (Nat.le_of_lt hm)
  | _ =>
    rw [hp] at h
    exact (Steady.ready h).closed_strings (Nat.le_refl n)

/-! ## Runs -/

/-- A run of the reading over nests goes along with a run. -/
theorem Reaches.mirrors (h : (Reader.initial ops filename source).Reaches pre r)
    (hpre : ∀ c ∈ pre, c ≠ '\r') :
    ∃ s, Nested.initial.read ops pre = some s ∧ s.Staged ops ∧ r.Mirrors ops s := by
  induction h with
  | start => exact ⟨_, rfl, Nested.staged_initial, mirrors_initial ..⟩
  | @next pre c r r' _ haccept ih =>
    obtain ⟨s, hs, hstaged, hmirrors⟩ := ih fun d hd => hpre d (List.mem_append_left _ hd)
    rcases (hmirrors.accept hstaged c).cases with ⟨e, hx, -⟩ | ⟨r'', s', hx, hy, hmirrors'⟩
    · rw [haccept] at hx
      cases hx
    · rw [haccept] at hx
      cases hx
      have hc : c ≠ '\r' := hpre c (List.mem_append_right _ List.mem_cons_self)
      refine ⟨s', ?_, hstaged.accept hc hy, hmirrors'⟩
      rw [Nested.read_append, hs, Option.bind_some, Nested.read, hy]
      rfl

/-- In a string there is an element that the string goes under. -/
theorem Mirrors.element_ne_none {s : Nested} (h : r.Mirrors ops s) (hs : s.Staged ops)
    (hstring : r.phase.inString) : r.element ≠ none := by
  have hphase := h.phase
  obtain ⟨p, nest, b, token, m⟩ := s
  have hrow : ∃ e es name f, nest = .row e es name f := by
    cases hs with
    | string hn _ => exact hn.exists_row
    | stringEscape hn _ => exact hn.exists_row
    | _ =>
      rw [hphase] at hstring
      cases hstring
  obtain ⟨e, es, name, f, rfl⟩ := hrow
  rw [h.shows.element _ rfl]
  exact Option.some_ne_none _

/-- A character begins a string where it stands, or none. -/
theorem continues_accept (h : r.accept c = .ok r')
    (helement : r.phase.inString → r.element ≠ none) :
    Continues r.cursor.offset r.quotes r'.quotes := by
  rcases accept_ok h with ⟨-, -, rfl⟩ | ⟨r'', -, hstep, rfl⟩
  · exact .refl _ _
  · have hquotes := (r.advance c).quotes_step (c := c) helement
    rw [hstep] at hquotes
    rcases hquotes with hquotes | hquotes
    · show Continues _ r.quotes r''.quotes
      rw [hquotes]
      exact .refl _ _
    · refine ⟨[(r.advance c).cursor], hquotes, fun p hp => ?_⟩
      rw [List.mem_singleton.mp hp, advance]
      split <;> exact Nat.le_refl _

/-- A run comes by a state after every beginning of what it reads, and strings begin later from
there on. -/
theorem Reaches.exists_at (h : (Reader.initial ops filename source).Reaches cs r)
    (hcs : ∀ c ∈ cs, c ≠ '\r') (hn : n ≤ cs.length) :
    ∃ r', (Reader.initial ops filename source).Reaches (cs.take n) r' ∧
      Continues n r'.quotes r.quotes := by
  induction h with
  | start => exact ⟨_, by simpa using Reaches.start, .refl _ _⟩
  | @next pre c r₁ r₂ h₁ haccept ih =>
    have hpre : ∀ d ∈ pre, d ≠ '\r' := fun d hd => hcs d (List.mem_append_left _ hd)
    rcases Nat.lt_or_ge pre.length n with hlt | hle
    · have hall : n = (pre ++ [c]).length := by
        rw [List.length_append, List.length_singleton] at hn ⊢
        omega
      refine ⟨r₂, ?_, .refl _ _⟩
      rw [hall, List.take_length]
      exact h₁.next haccept
    · obtain ⟨r', hr', hcontinues⟩ := ih hpre hle
      obtain ⟨s, -, hstaged, hmirrors⟩ := h₁.mirrors hpre
      have hlast := continues_accept haccept (hmirrors.element_ne_none hstaged)
      have hcursor : r₁.cursor.offset = pre.length := congrArg Position.offset
        (h₁.before (List.prefix_refl _) hpre (before_initial ..))
      refine ⟨r', ?_, hcontinues.trans hlast (hcursor ▸ hle)⟩
      rwa [List.take_append_of_le_length hle]

/-! ## Open strings -/

/-- The string that is under way begins at the token and has been read as far as the phase says. -/
theorem Sited.literalAt_tokenStart (h : r.Sited cs n b) (hstring : r.phase.inString) :
    r.tokenStart.offset < n ∧ literalAt cs r.tokenStart.offset n = r.phase.literal := by
  rw [Sited] at h
  cases hp : r.phase with
  | string | stringEscape =>
    rw [hp] at h
    obtain ⟨k, hk, hstart, -, -, hliteral⟩ := h
    rw [hstart]
    exact ⟨hk, hliteral⟩
  | _ =>
    rw [hp] at hstring
    cases hstring

/-- A tree that goes on from a state has an open string exactly where the phase says so. -/
theorem Sited.stringAt_iff {tree : Tree} (h : r.Sited cs n b)
    (htree : Continues n r.quotes tree.strings) (hl : l ≠ .closed) :
    tree.StringAt cs n l ↔ r.phase.literal = l := by
  obtain ⟨later, hstrings, hlater⟩ := htree
  rw [quotes, List.append_assoc] at hstrings
  constructor
  · rintro ⟨p, hp, hlt, hliteral⟩
    rw [hstrings, List.mem_append, List.mem_append] at hp
    rcases hp with hp | hp | hp
    -- a string in the tree is closed
    · exact absurd (hliteral.symm.trans (h.closed_strings p hp)) hl
    · cases hstring : r.phase.inString with
      | true =>
        rw [hstring, if_pos rfl, List.mem_singleton] at hp
        rw [← hliteral, hp]
        exact (h.literalAt_tokenStart hstring).2.symm
      | false =>
        rw [hstring] at hp
        cases hp
    · exact absurd (hlater p hp) (Nat.not_le_of_lt hlt)
  · rintro rfl
    have hstring : r.phase.inString := by
      rw [Phase.inString_iff]
      exact hl
    obtain ⟨hlt, hliteral⟩ := h.literalAt_tokenStart hstring
    refine ⟨r.tokenStart, ?_, hlt, hliteral⟩
    rw [hstrings, if_pos hstring]
    simp

end Reader

end Formulary

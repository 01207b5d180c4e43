import Formulary.Proofs.Layout.Spine
import Formulary.Proofs.Reader.Ledger

/-!
# The braces of sections

A section is open between its braces: the one that gives it its title, and the one that closes it.
Both are read while the section is the current entity, and no other brace is.

* `Reader.readIn`: the characters that have been read in an entity.
* `Nest.Braced`: the braces that have been read in the entities of a nest.
* `Nest.Moves.braced`: a move keeps track of them.
* `Reader.Reaches.braced`: so does a run.
-/

namespace Formulary

open Nest

/-- A character has been read while an entity was the current one. -/
def Reader.readIn (c : Char) (id : EntityId) : Reader → List Char → Bool
  | _, [] => false
  | r, d :: ds =>
    match r.accept d with
    | .ok r' => (d = c && r.current = id) || readIn c id r' ds
    | .error _ => false

theorem Reader.readIn_append {r₀ r r' : Reader} {pre : List Char} {d : Char}
    (h : r₀.Reaches pre r) (hr : r.accept d = .ok r') (c : Char) (id : EntityId) :
    r₀.readIn c id (pre ++ [d]) = (r₀.readIn c id pre || (d = c && r.current = id)) := by
  induction pre generalizing r₀ with
  | nil =>
    cases reaches_iff_foldlM.mp h
    simp [readIn, hr]
  | cons b pre ih =>
    obtain ⟨r₁, hb, h⟩ := reaches_cons.mp h
    rw [List.cons_append, readIn, readIn, hb]
    simp only [ih h, Bool.or_assoc]

/-! ## Places -/

namespace Nest

variable {e e' : OpenEntity} {es es' : List OpenEntity} {n n' : Nest}

def size : Nest → Nat
  | entity e es => place (e :: es)
  | row e es _ _ => place (e :: es) + 1
  | done root => root.rose.size

theorem place_cons (e : OpenEntity) (es : List OpenEntity) :
    place (e :: es) = place es + 1 + Rose.sizes (EntityOutline.roses e.closed) := rfl

theorem place_lt (e : OpenEntity) (es : List OpenEntity) : place es < place (e :: es) := by
  rw [place_cons]
  exact Nat.lt_of_lt_of_le (Nat.lt_succ_self _) (Nat.le_add_right _ _)

theorem place_lt_of_suffix (h : e :: es <:+ es') : place es < place es' := by
  obtain ⟨gs, rfl⟩ := h
  have hle := Frame.next_le_append 0 (entityFrames gs) (entityFrames (e :: es))
  rw [entityFrames, entityFrames, ← List.map_append] at hle
  exact Nat.lt_of_lt_of_le (place_lt e es) hle

theorem place_add (e : OpenEntity) (o : EntityOutline) (es : List OpenEntity) :
    place (e.add o :: es) = place (e :: es) + o.rose.size := by
  rw [place_cons, place_cons, OpenEntity.closed_add, EntityOutline.roses_append, Rose.sizes_append]
  exact (Nat.add_assoc _ _ _).symm

theorem size_outline (e : OpenEntity) :
    e.outline.rose.size = 1 + Rose.sizes (EntityOutline.roses e.closed) := by
  rw [OpenEntity.rose_outline, Rose.size_node, Nat.add_comm]

theorem size_close (e : OpenEntity) (es : List OpenEntity) :
    (close e es).size = place (e :: es) := by
  cases es with
  | nil =>
    show e.outline.rose.size = _
    rw [size_outline, place_cons]
    exact (Nat.zero_add _).symm ▸ rfl
  | cons e' es =>
    show place (e'.add e.outline :: es) = _
    rw [place_add, size_outline, place_cons e, Nat.add_assoc]

theorem current_lt_size (n : Nest) : n.current < n.size := by
  cases n with
  | entity e es => exact place_lt e es
  | row e es name f => exact Nat.lt_succ_self _
  | done root =>
    show 0 < root.rose.size
    cases root.rose with
    | node a ts => exact Nat.succ_pos _

/-- The braces that have been read in the entities of a nest, `seen` telling the characters that
have been read in each. -/
structure Braced (seen : Char → EntityId → Bool) (n : Nest) : Prop where
  fresh : ∀ d id, n.size ≤ id → seen d id = false
  opened : ∀ e es, e :: es <:+ n.opened → seen '{' (place es) = e.isTitled
  unclosed : ∀ e es, e :: es <:+ n.opened → seen '}' (place es) = false
  closed : ∀ root, n = .done root → seen '}' 0 = true

end Nest

/-! ## Moves -/

variable {c : Char} {p : Phase} {n n' : Nest} {seen seen' : Char → EntityId → Bool}

theorem Nest.Moves.size_le (h : Nest.Moves c p n n') : n.size ≤ n'.size := by
  induction h with
  | stay | row | final => exact Nat.le_refl _
  | openArray | openUntitled => exact Nat.le_of_lt (place_lt _ _)
  | openSection => exact Nat.le_refl _
  | @closeArray e es name items =>
    exact Nat.le_of_eq (size_close (.array name items) (e :: es)).symm
  | closeSection => exact Nat.le_of_eq (size_close _ _).symm
  | enter => exact Nat.le_succ _
  | @leave p e es name row row' n' _ h ih =>
    refine Nat.le_trans (Nat.le_of_eq ?_) ih
    exact (place_add e (.expression name row') es).symm

/-- An open entity is open with what is added to it. -/
theorem Nest.suffix_add {e e' : OpenEntity} {o : EntityOutline} {es es' : List OpenEntity}
    (h : e' :: es' <:+ e.add o :: es) :
    ∃ e₀, e₀ :: es' <:+ e :: es ∧ e₀.isTitled = e'.isTitled := by
  rcases List.suffix_cons_iff.mp h with heq | hsuffix
  · obtain ⟨rfl, rfl⟩ := List.cons_eq_cons.mp heq
    exact ⟨e, List.suffix_refl _, (OpenEntity.isTitled_add e o).symm⟩
  · exact ⟨e', hsuffix.trans (List.suffix_cons _ _), rfl⟩

/-- An entity that is open after a move was open before, or is new. -/
theorem Nest.Moves.suffix_opened (h : Nest.Moves c p n n') (hc : isBrace c = false)
    {e : OpenEntity} {es : List OpenEntity} (hs : e :: es <:+ n'.opened) :
    (n.size ≤ place es ∧ e.isTitled = false) ∨
      ∃ e₀, e₀ :: es <:+ n.opened ∧ e₀.isTitled = e.isTitled := by
  induction h with
  | stay | row | enter | final => exact .inr ⟨e, hs, rfl⟩
  | openArray | openUntitled =>
    rcases List.suffix_cons_iff.mp hs with heq | hsuffix
    · obtain ⟨rfl, rfl⟩ := List.cons_eq_cons.mp heq
      exact .inl ⟨Nat.le_refl _, rfl⟩
    · exact .inr ⟨e, hsuffix, rfl⟩
  | openSection hopen =>
    subst hopen
    cases hc
  | closeSection hclose =>
    subst hclose
    cases hc
  | closeArray =>
    obtain ⟨e₀, hsuffix, htitled⟩ := suffix_add hs
    exact .inr ⟨e₀, hsuffix.trans (List.suffix_cons _ _), htitled⟩
  | @leave p e' es' name row row' n' _ h ih =>
    rcases ih hs with ⟨hsize, htitled⟩ | ⟨e₁, hsuffix, htitled⟩
    · refine .inl ⟨Nat.le_trans (Nat.le_of_eq ?_) hsize, htitled⟩
      exact (place_add e' (.expression name row') es').symm
    · obtain ⟨e₀, hsuffix, htitled'⟩ := suffix_add hsuffix
      exact .inr ⟨e₀, hsuffix, htitled'.trans htitled⟩

theorem Nest.Moves.done_of_done {root : EntityOutline} (h : Nest.Moves c p n n')
    (hc : isBrace c = false) (hn : n' = .done root) : n = .done root := by
  induction h with
  | closeSection hclose =>
    subst hclose
    cases hc
  | final => exact hn
  | leave _ h ih => cases ih hn
  | _ => cases hn

/-- What has been read in each entity, by a character more. -/
def Nest.reads (n : Nest) (c : Char) (seen : Char → EntityId → Bool) : Char → EntityId → Bool :=
  fun d id => seen d id || (c = d && n.current = id)

theorem Nest.reads_of_ne {d : Char} (h : c ≠ d) (id : EntityId) :
    n.reads c seen d id = seen d id := by
  rw [reads, decide_eq_false h, Bool.false_and, Bool.or_false]

theorem Nest.reads_of_ne_current {id : EntityId} (h : n.current ≠ id) (d : Char) :
    n.reads c seen d id = seen d id := by
  rw [reads, decide_eq_false h, Bool.and_false, Bool.or_false]

theorem Nest.reads_current (n : Nest) (c : Char) (seen : Char → EntityId → Bool) :
    n.reads c seen c n.current = true := by simp [reads]

theorem Nest.Moves.fresh (h : Nest.Moves c p n n') (hb : n.Braced seen) (d : Char) {id : EntityId}
    (hid : n'.size ≤ id) : n.reads c seen d id = false := by
  have hsize := Nat.le_trans h.size_le hid
  rw [reads_of_ne_current (Nat.ne_of_lt (Nat.lt_of_lt_of_le n.current_lt_size hsize)),
    hb.fresh d id hsize]

/-- A character that is no brace opens and closes no section. -/
theorem Nest.Moves.braced_of_not_brace (h : Nest.Moves c p n n') (hc : isBrace c = false)
    (hb : n.Braced seen) : n'.Braced (n.reads c seen) := by
  have hopening : c ≠ '{' := by
    rintro rfl
    cases hc
  have hclosing : c ≠ '}' := by
    rintro rfl
    cases hc
  refine ⟨fun d id => h.fresh hb d, fun e es hs => ?_, fun e es hs => ?_, ?_⟩
  · rw [reads_of_ne hopening]
    rcases h.suffix_opened hc hs with ⟨hsize, htitled⟩ | ⟨e₀, hsuffix, htitled⟩
    · rw [hb.fresh _ _ hsize, htitled]
    · rw [hb.opened e₀ es hsuffix, htitled]
  · rw [reads_of_ne hclosing]
    rcases h.suffix_opened hc hs with ⟨hsize, -⟩ | ⟨e₀, hsuffix, -⟩
    · exact hb.fresh _ _ hsize
    · exact hb.unclosed e₀ es hsuffix
  · rintro root rfl
    rw [reads_of_ne hclosing]
    exact hb.closed root (h.done_of_done hc rfl)

theorem Nest.Braced.around {e : OpenEntity} {es : List OpenEntity} (hb : n.Braced seen)
    (hs : e :: es <:+ n.opened) (hlt : place es < n.current) :
    n.reads c seen '{' (place es) = e.isTitled ∧ n.reads c seen '}' (place es) = false := by
  rw [reads_of_ne_current (Nat.ne_of_gt hlt), reads_of_ne_current (Nat.ne_of_gt hlt)]
  exact ⟨hb.opened e es hs, hb.unclosed e es hs⟩

variable {name : Option String} {title : String} {es : List OpenEntity} {ms : List EntityOutline}

theorem Nest.Braced.openSection (hb : (Nest.entity (.sect name none ms) es).Braced seen) :
    (Nest.entity (.sect name (some title) ms) es).Braced
      ((Nest.entity (.sect name none ms) es).reads '{' seen) := by
  have hmove : Nest.Moves '{' .sectionOpen (.entity (.sect name none ms) es)
      (.entity (.sect name (some title) ms) es) := .openSection rfl
  refine ⟨fun d id => hmove.fresh hb d, fun e' es' hs => ?_, fun e' es' hs => ?_, nofun⟩
  · rcases List.suffix_cons_iff.mp hs with heq | hsuffix
    · obtain ⟨rfl, rfl⟩ := List.cons_eq_cons.mp heq
      exact reads_current (.entity (.sect name none ms) es') '{' seen
    · exact (hb.around (hsuffix.trans (List.suffix_cons _ _)) (place_lt_of_suffix hsuffix)).1
  · rw [reads_of_ne (by decide)]
    rcases List.suffix_cons_iff.mp hs with heq | hsuffix
    · obtain ⟨rfl, rfl⟩ := List.cons_eq_cons.mp heq
      exact hb.unclosed _ _ (List.suffix_refl _)
    · exact hb.unclosed _ _ (hsuffix.trans (List.suffix_cons _ _))

theorem Nest.Braced.closeSection (hb : (Nest.entity (.sect name (some title) ms) es).Braced seen) :
    (Nest.close (.sect name (some title) ms) es).Braced
      ((Nest.entity (.sect name (some title) ms) es).reads '}' seen) := by
  have hmove : Nest.Moves '}' .sectionClose (.entity (.sect name (some title) ms) es)
      (.close (.sect name (some title) ms) es) := .closeSection rfl
  cases es with
  | nil =>
    refine ⟨fun d id => hmove.fresh hb d, fun e es hs => ?_, fun e es hs => ?_, fun root _ => ?_⟩
    · exact absurd (List.suffix_nil.mp hs) (List.cons_ne_nil e es)
    · exact absurd (List.suffix_nil.mp hs) (List.cons_ne_nil e es)
    · exact reads_current (.entity (.sect name (some title) ms) []) '}' seen
  | cons e es =>
    refine ⟨fun d id => hmove.fresh hb d, fun e' es' hs => ?_, fun e' es' hs => ?_, nofun⟩
    · obtain ⟨e₀, hsuffix, htitled⟩ := suffix_add hs
      rw [← htitled]
      exact (hb.around (hsuffix.trans (List.suffix_cons _ _)) (place_lt_of_suffix hsuffix)).1
    · obtain ⟨e₀, hsuffix, -⟩ := suffix_add hs
      exact (hb.around (hsuffix.trans (List.suffix_cons _ _)) (place_lt_of_suffix hsuffix)).2

/-- A move keeps track of the braces. -/
theorem Nest.Moves.braced (h : Nest.Moves c p n n') (hb : n.Braced seen) :
    n'.Braced (n.reads c seen) := by
  by_cases hc : isBrace c = false
  · exact h.braced_of_not_brace hc hb
  have hfresh : ∀ d id, n'.size ≤ id → n.reads c seen d id = false := fun d _ => h.fresh hb d
  cases h with
  | stay hplain | openArray hplain | openUntitled hplain | closeArray hplain | enter hplain
  | leave hplain | final hplain => exact absurd hplain hc
  | openSection hopen =>
    subst hopen
    exact hb.openSection
  | closeSection hclose =>
    subst hclose
    exact hb.closeSection
  | row h =>
    exact ⟨hfresh, fun e' es' hs => (hb.around hs (place_lt_of_suffix hs)).1,
      fun e' es' hs => (hb.around hs (place_lt_of_suffix hs)).2, nofun⟩

/-! ## Runs -/

namespace Reader

variable {ops : List String} {filename : Option String} {source : String} {r : Reader}
  {pre : List Char}

theorem braced_initial (r₀ : Reader) :
    Nested.initial.nest.Braced fun d id => r₀.readIn d id [] := by
  refine ⟨fun _ _ _ => rfl, fun e es hs => ?_, fun _ _ _ => rfl, nofun⟩
  rcases List.suffix_cons_iff.mp hs with heq | hsuffix
  · obtain ⟨rfl, -⟩ := List.cons_eq_cons.mp heq
    rfl
  · exact absurd (List.suffix_nil.mp hsuffix) (List.cons_ne_nil _ _)

theorem Reaches.braced (h : (Reader.initial ops filename source).Reaches pre r)
    (hpre : ∀ c ∈ pre, c ≠ '\r') : ∃ s : Nested, s.Staged ops ∧ r.Mirrors ops s ∧
      s.nest.Braced fun d id => (Reader.initial ops filename source).readIn d id pre := by
  induction h with
  | start => exact ⟨_, Nested.staged_initial, mirrors_initial .., braced_initial _⟩
  | @next pre c r r' hr haccept ih =>
    obtain ⟨s, hs, hmirrors, hbraced⟩ := ih fun d hd => hpre d (List.mem_append_left _ hd)
    have hc : c ≠ '\r' := hpre c (List.mem_append_right _ List.mem_cons_self)
    obtain ⟨s', hs', hmirrors', hmove⟩ := hmirrors.accept_cases hs haccept
    refine ⟨s', hs.accept hc hs', hmirrors', ?_⟩
    have hread : (fun d id => (Reader.initial ops filename source).readIn d id (pre ++ [c])) =
        s.nest.reads c fun d id => (Reader.initial ops filename source).readIn d id pre := by
      funext d id
      rw [readIn_append hr haccept, hmirrors.shows.current]
      rfl
    rw [hread]
    rcases hmove with ⟨hblank, hnest⟩ | hmove
    · obtain ⟨p, hmove⟩ := Nest.exists_moves (isBrace_of_isBlank hblank) s.nest
      rw [hnest]
      exact hmove.braced hbraced
    · exact hmove.braced hbraced

end Reader

end Formulary

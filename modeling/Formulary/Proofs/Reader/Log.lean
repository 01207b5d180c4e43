import Formulary.Proofs.Text.Basic
import Formulary.Proofs.Text.Blanking
import Formulary.Proofs.Tree.Marks
import Formulary.Text.Basic

/-!
# The log of a reading

As a text is read, the tables of its tree are filled from left to right.  A *log* says which marks
can be in them once some characters have been read: each at the offset of its word, in order.

* `Spells`: how the text of an element stands in what is read.
* `Log`: the marks of both tables after some characters.
* `Awaits`: the marks before a term, which may already have a node for it.
* `Log.sited`, `Log.ordered`: what a log says of each mark, and of two of them.
-/

namespace Formulary

variable {cs : List Char} {k n n' : Nat}

/-! ## Words -/

/-- The characters of a text that is written as a word: the text itself, but blanks may stand after
the minus of a number. -/
inductive Word : ElementKind → List Char → List Char → Prop
  | verbatim {kind : ElementKind} {w : List Char} : w ≠ [] → (∀ c ∈ w, isBlank c = false) →
      Word kind w w
  | minus {gap digits : List Char} : Blanks gap → digits ≠ [] →
      (∀ c ∈ digits, isBlank c = false) →
      Word .number ('-' :: digits) ('-' :: (gap ++ digits))

theorem Word.ne_nil {kind : ElementKind} {text w : List Char} (h : Word kind text w) : w ≠ [] := by
  cases h with
  | verbatim hne _ => exact hne
  | minus => exact List.cons_ne_nil _ _

theorem Word.snoc {kind : ElementKind} {text w : List Char} {c : Char} (h : Word kind text w)
    (hc : isBlank c = false) : Word kind (text ++ [c]) (w ++ [c]) := by
  cases h with
  | verbatim _ hblank =>
    exact .verbatim (by simp) (by simpa [or_imp, forall_and] using ⟨hblank, hc⟩)
  | @minus gap digits hgap hne hblank =>
    have hdigits : ∀ d ∈ digits ++ [c], isBlank d = false := by
      simpa [or_imp, forall_and] using ⟨hblank, hc⟩
    have hword : Word .number ('-' :: (digits ++ [c])) ('-' :: (gap ++ (digits ++ [c]))) :=
      .minus hgap (by simp) hdigits
    simpa using hword

theorem Word.eq_of_ne {kind : ElementKind} {text w : List Char} (h : Word kind text w)
    (hkind : kind ≠ .number) : w = text := by
  cases h with
  | verbatim => rfl
  | minus => exact absurd rfl hkind

theorem Word.of_ne {kind kind' : ElementKind} {text w : List Char} (h : Word kind text w)
    (hkind : kind ≠ .number) : Word kind' text w := by
  cases h with
  | verbatim hne hblank => exact .verbatim hne hblank
  | minus => exact absurd rfl hkind

/-- A word stands at the offset `k` and ends before the offset `n`. -/
structure Stands (cs : List Char) (n k : Nat) (w : List Char) : Prop where
  word : w <+: cs.drop k
  le : k + w.length ≤ n

theorem Stands.mono {w : List Char} (h : Stands cs n k w) (hn : n ≤ n') : Stands cs n' k w :=
  ⟨h.word, Nat.le_trans h.le hn⟩

theorem Stands.of_getElem? {c : Char} (h : cs[k]? = some c) : Stands cs (k + 1) k [c] := by
  obtain ⟨hlt, rfl⟩ := List.getElem?_eq_some_iff.mp h
  refine ⟨?_, Nat.le_refl _⟩
  rw [List.drop_eq_getElem_cons hlt]
  exact ⟨_, rfl⟩

def ElementKind.isWord : ElementKind → Bool
  | .symbol | .number | .identifier | .function | .operator => true
  | .string | .argument | .node => false

/-- An element is written from the offset `k` on and ends before the offset `n`: its text as a word,
or a string in quotes. -/
inductive Spells (cs : List Char) (n k : Nat) : ElementKind → String → Prop
  | word {kind : ElementKind} {text : String} {w : List Char} : kind.isWord →
      Word kind text.toList w → Stands cs n k w → Spells cs n k kind text
  | string {text : String} : cs[k]? = some '"' → literalAt cs k n = .closed →
      Spells cs n k .string text

variable {kind : ElementKind} {text : String}

theorem Spells.mono (h : Spells cs n k kind text) (hn : n ≤ n') : Spells cs n' k kind text := by
  cases h with
  | word hkind hw hstands => exact .word hkind hw (hstands.mono hn)
  | string hquote hclosed => exact .string hquote (literalAt_closed hclosed hn)

theorem Spells.lt (h : Spells cs n k kind text) : k < n := by
  cases h with
  | word _ hw hstands =>
    have := List.length_pos_iff.mpr hw.ne_nil
    have := hstands.le
    omega
  | string _ hclosed => exact lt_of_literalAt (by rw [hclosed]; decide)

def TermAt (cs : List Char) (k : Nat) : Prop := ∃ c, cs[k]? = some c ∧ isTermStart c

/-! ## Logs -/

/-- The marks in both tables once `n` characters have been read.  A node and an argument after the
first come with the first element of the term under them, at whose offset they stand. -/
inductive Log (cs : List Char) : Nat → List EntityMark → List ElementMark → Prop
  | blank : Log cs 0 [] []
  | wait {n n' : Nat} {es : List EntityMark} {ms : List ElementMark} : Log cs n es ms → n ≤ n' →
      Log cs n' es ms
  | sect {k : Nat} {es : List EntityMark} {ms : List ElementMark} : Log cs k es ms →
      cs[k]? = some '#' → Log cs (k + 1) (es ++ [⟨.sect, .ofOffset cs k⟩]) ms
  | array {k : Nat} {es : List EntityMark} {ms : List ElementMark} : Log cs k es ms →
      cs[k]? = some '[' → Log cs (k + 1) (es ++ [⟨.array, .ofOffset cs k⟩]) ms
  | token {k n : Nat} {es : List EntityMark} {ms : List ElementMark} {kind : ElementKind}
      {text : String} {p : Nat} : Log cs k es ms → Spells cs n k kind text → p < ms.length →
      Log cs n es (ms ++ [⟨kind, text, some p, .ofOffset cs k⟩])
  /-- The first argument of a call stands at its parenthesis, directly after the call. -/
  | argument {k : Nat} {es : List EntityMark} {ms : List ElementMark} {p : Nat} :
      Log cs k es ms → cs[k]? = some '(' → p + 1 = ms.length →
      Log cs (k + 1) es (ms ++ [⟨.argument, "", some p, .ofOffset cs k⟩])
  | expression {k n : Nat} {es : List EntityMark} {ms : List ElementMark} {kind : ElementKind}
      {text : String} : Log cs k es ms → TermAt cs k → Spells cs n k kind text →
      Log cs n (es ++ [⟨.expression ms.length, .ofOffset cs k⟩])
        (ms ++ [⟨.node, "", none, .ofOffset cs k⟩, ⟨kind, text, some ms.length, .ofOffset cs k⟩])
  | further {k n : Nat} {es : List EntityMark} {ms : List ElementMark} {kind : ElementKind}
      {text : String} {m : ElementMark} {p : Nat} : Log cs k es ms → m ∈ ms →
      m.parent = some p → p < ms.length → TermAt cs k → Spells cs n k kind text →
      Log cs n es (ms ++
        [⟨.argument, "", some p, .ofOffset cs k⟩, ⟨kind, text, some ms.length, .ofOffset cs k⟩])

variable {es : List EntityMark} {ms ms' : List ElementMark}

/-- The marks before a term at the offset `k`, and the element that it goes under: perhaps a node or
a further argument that is waiting for it. -/
inductive Awaits (cs : List Char) (k : Nat) :
    List EntityMark → List ElementMark → Option Nat → Prop
  | steady {es : List EntityMark} {ms : List ElementMark} {element : Option Nat} :
      Log cs k es ms → (∀ p, element = some p → p < ms.length) → Awaits cs k es ms element
  | expression {es : List EntityMark} {ms : List ElementMark} : Log cs k es ms → TermAt cs k →
      Awaits cs k (es ++ [⟨.expression ms.length, .ofOffset cs k⟩])
        (ms ++ [⟨.node, "", none, .ofOffset cs k⟩]) (some ms.length)
  | further {es : List EntityMark} {ms : List ElementMark} {m : ElementMark} {p : Nat} :
      Log cs k es ms → m ∈ ms → m.parent = some p → p < ms.length → TermAt cs k →
      Awaits cs k es (ms ++ [⟨.argument, "", some p, .ofOffset cs k⟩]) (some ms.length)

theorem Awaits.token {p : Nat} (h : Awaits cs k es ms (some p))
    (hspells : Spells cs n k kind text) :
    Log cs n es (ms ++ [⟨kind, text, some p, .ofOffset cs k⟩]) := by
  cases h with
  | steady h hp => exact h.token hspells (hp p rfl)
  | expression h hterm =>
    rw [List.append_assoc]
    exact h.expression hterm hspells
  | further h hm hparent hp hterm =>
    rw [List.append_assoc]
    exact h.further hm hparent hp hterm hspells

theorem Awaits.log_of_none (h : Awaits cs k es ms none) : Log cs k es ms := by
  cases h with
  | steady h _ => exact h

theorem Awaits.lt {p : Nat} (h : Awaits cs k es ms (some p)) : p < ms.length := by
  cases h with
  | steady _ hp => exact hp p rfl
  | expression => simp
  | further => simp

/-! ## What a log says -/

/-- A mark stands at the first character of a term, and the next mark is the first one under it, at
the same place. -/
def Headed (cs : List Char) (ms : List ElementMark) (i : Nat) (m : ElementMark) : Prop :=
  TermAt cs m.position.offset ∧
    ∃ m', ms[i + 1]? = some m' ∧ m'.parent = some i ∧ m'.position = m.position

inductive ElementMark.Means (cs : List Char) (n : Nat) (ms : List ElementMark) (i : Nat)
    (m : ElementMark) : Prop
  | token : Spells cs n m.position.offset m.kind m.text → Means cs n ms i m
  | node : m.kind = .node → m.parent = none → Headed cs ms i m → Means cs n ms i m
  | argument : m.kind = .argument → (∀ j < i, ∀ m', ms[j]? = some m' → m'.parent ≠ m.parent) →
      cs[m.position.offset]? = some '(' → Means cs n ms i m
  | further {j : Nat} {m' : ElementMark} : m.kind = .argument → j < i → ms[j]? = some m' →
      m'.parent = m.parent → Headed cs ms i m → Means cs n ms i m

/-- A mark stands where it says, before the offset `n`, and after its parent in the table. -/
structure ElementMark.Sited (cs : List Char) (n : Nat) (ms : List ElementMark) (i : Nat)
    (m : ElementMark) : Prop where
  position : m.position = .ofOffset cs m.position.offset
  lt : m.position.offset < n
  parent : ∀ p, m.parent = some p → p < i
  means : m.Means cs n ms i

theorem Headed.append {i : Nat} {m : ElementMark} (h : Headed cs ms i m)
    (ms' : List ElementMark) : Headed cs (ms ++ ms') i m := by
  obtain ⟨hterm, m', hm', hrest⟩ := h
  refine ⟨hterm, m', ?_, hrest⟩
  rw [List.getElem?_append_left (List.getElem?_eq_some_iff.mp hm').1, hm']

theorem ElementMark.Sited.mono {i : Nat} {m : ElementMark} (h : m.Sited cs n ms i)
    (hi : i < ms.length) (hn : n ≤ n') (ms' : List ElementMark) : m.Sited cs n' (ms ++ ms') i where
  position := h.position
  lt := Nat.lt_of_lt_of_le h.lt hn
  parent := h.parent
  means := by
    cases h.means with
    | token hspells => exact .token (hspells.mono hn)
    | node hkind hparent hhead => exact .node hkind hparent (hhead.append ms')
    | argument hkind hfirst hparen =>
      refine .argument hkind (fun j hj m' hm' => ?_) hparen
      rw [List.getElem?_append_left (by omega)] at hm'
      exact hfirst j hj m' hm'
    | @further j m' hkind hj hm' hparent hhead =>
      refine .further hkind hj ?_ hparent (hhead.append ms')
      rw [List.getElem?_append_left (by omega), hm']

def AllSited (cs : List Char) (n : Nat) (ms : List ElementMark) : Prop :=
  ∀ (i : Nat) (m : ElementMark), ms[i]? = some m → m.Sited cs n ms i

theorem AllSited.append (h : AllSited cs k ms) (hn : k ≤ n)
    (h' : ∀ (i : Nat) (m : ElementMark), ms'[i]? = some m →
      m.Sited cs n (ms ++ ms') (ms.length + i)) :
    AllSited cs n (ms ++ ms') := by
  intro i m hm
  rcases Nat.lt_or_ge i ms.length with hi | hi
  · rw [List.getElem?_append_left hi] at hm
    exact (h i m hm).mono hi hn ms'
  · rw [List.getElem?_append_right hi] at hm
    have := h' (i - ms.length) m hm
    rwa [Nat.add_sub_cancel' hi] at this

theorem forall_getElem?_singleton {α : Type} {a : α} {P : Nat → α → Prop} (h : P 0 a) :
    ∀ i b, [a][i]? = some b → P i b := by
  intro i b hb
  cases i with
  | zero => exact Option.some.inj hb ▸ h
  | succ i => cases hb

theorem forall_getElem?_pair {α : Type} {a b : α} {P : Nat → α → Prop} (h : P 0 a) (h' : P 1 b) :
    ∀ i c, [a, b][i]? = some c → P i c := by
  intro i c hc
  match i, hc with
  | 0, hc => exact Option.some.inj hc ▸ h
  | 1, hc => exact Option.some.inj hc ▸ h'

theorem lt_of_some {p q i : Nat} (hp : p < i) (h : some p = some q) : q < i :=
  Option.some.inj h ▸ hp

theorem Log.sited (h : Log cs n es ms) : AllSited cs n ms := by
  induction h with
  | blank => exact fun i m hm => nomatch hm
  | @wait n n' es ms _ hn ih =>
    intro i m hm
    have := (ih i m hm).mono (List.getElem?_eq_some_iff.mp hm).1 hn []
    rwa [List.append_nil] at this
  | sect _ _ ih | array _ _ ih =>
    intro i m hm
    have := (ih i m hm).mono (List.getElem?_eq_some_iff.mp hm).1 (Nat.le_succ _) []
    rwa [List.append_nil] at this
  | @token k n es ms kind text p _ hspells hp ih =>
    refine ih.append (Nat.le_of_lt hspells.lt) (forall_getElem?_singleton ?_)
    exact ⟨rfl, hspells.lt, fun _ => lt_of_some hp, .token hspells⟩
  | @argument k es ms p _ hparen hp ih =>
    refine ih.append (Nat.le_succ k) (forall_getElem?_singleton ?_)
    refine ⟨rfl, Nat.lt_succ_self k, fun _ => lt_of_some (by omega),
      .argument rfl (fun j hj m' hm' heq => ?_) hparen⟩
    -- no mark before the call is under it
    rw [List.getElem?_append_left hj] at hm'
    have hlt : p < j := (ih j m' hm').parent p heq
    omega
  | @expression k n es ms kind text _ hterm hspells ih =>
    refine ih.append (Nat.le_of_lt hspells.lt) (forall_getElem?_pair ?_ ?_)
    · exact ⟨rfl, hspells.lt, fun _ heq => (nomatch heq),
        .node rfl rfl ⟨hterm, ⟨kind, text, some ms.length, _⟩, by simp, rfl, rfl⟩⟩
    · exact ⟨rfl, hspells.lt, fun _ => lt_of_some (Nat.lt_succ_self _), .token hspells⟩
  | @further k n es ms kind text m p _ hm hparent hp hterm hspells ih =>
    refine ih.append (Nat.le_of_lt hspells.lt) (forall_getElem?_pair ?_ ?_)
    · obtain ⟨j, hj, rfl⟩ := List.mem_iff_getElem.mp hm
      have hm : (ms ++ [⟨.argument, "", some p, .ofOffset cs k⟩,
          ⟨kind, text, some ms.length, .ofOffset cs k⟩])[j]? = some ms[j] := by
        rw [List.getElem?_append_left hj, List.getElem?_eq_getElem hj]
      exact ⟨rfl, hspells.lt, fun _ => lt_of_some hp, .further rfl hj hm hparent
        ⟨hterm, ⟨kind, text, some ms.length, _⟩, by simp, rfl, rfl⟩⟩
    · exact ⟨rfl, hspells.lt, fun _ => lt_of_some (Nat.lt_succ_self _), .token hspells⟩

/-- A later mark stands at a later offset, unless it is the first one under the earlier mark. -/
def Ordered (ms : List ElementMark) : Prop :=
  ∀ (i j : Nat) (m m' : ElementMark), i < j → ms[i]? = some m → ms[j]? = some m' →
    m.position.offset < m'.position.offset ∨
      m.position.offset = m'.position.offset ∧ m'.parent = some i

theorem Ordered.append (h : Ordered ms) (hlt : ∀ m ∈ ms, m.position.offset < k)
    (hle : ∀ m' ∈ ms', k ≤ m'.position.offset)
    (h' : ∀ (i j : Nat) (m m' : ElementMark), i < j → ms'[i]? = some m → ms'[j]? = some m' →
      m.position.offset = m'.position.offset ∧ m'.parent = some (ms.length + i)) :
    Ordered (ms ++ ms') := by
  intro i j m m' hij hm hm'
  rcases Nat.lt_or_ge j ms.length with hj | hj
  · rw [List.getElem?_append_left (by omega)] at hm hm'
    exact h i j m m' hij hm hm'
  rw [List.getElem?_append_right hj] at hm'
  rcases Nat.lt_or_ge i ms.length with hi | hi
  · rw [List.getElem?_append_left hi] at hm
    have := hlt m (List.mem_of_getElem? hm)
    have := hle m' (List.mem_of_getElem? hm')
    exact .inl (by omega)
  · rw [List.getElem?_append_right hi] at hm
    have := h' (i - ms.length) (j - ms.length) m m' (by omega) hm hm'
    rw [Nat.add_sub_cancel' hi] at this
    exact .inr this

theorem Ordered.snoc {m : ElementMark} (h : Ordered ms) (hlt : ∀ m ∈ ms, m.position.offset < k)
    (hm : k ≤ m.position.offset) : Ordered (ms ++ [m]) := by
  refine h.append hlt (by simpa using hm) fun i j m₁ m₂ hij h₁ h₂ => ?_
  match j, h₂ with
  | 0, _ => exact absurd hij (Nat.not_lt_zero i)

theorem Ordered.pair {m m' : ElementMark} (h : Ordered ms)
    (hlt : ∀ m ∈ ms, m.position.offset < k) (hm : m.position.offset = k)
    (hm' : m'.position.offset = k) (hparent : m'.parent = some ms.length) :
    Ordered (ms ++ [m, m']) := by
  refine h.append hlt (by simp [hm, hm']) fun i j m₁ m₂ hij h₁ h₂ => ?_
  match i, j, h₁, h₂ with
  | 0, 1, h₁, h₂ =>
    cases h₁
    cases h₂
    exact ⟨hm.trans hm'.symm, hparent⟩
  | i + 1, 1, _, _ => exact absurd hij (by omega)
  | i, 0, _, _ => exact absurd hij (Nat.not_lt_zero i)

theorem Log.lt (h : Log cs n es ms) : ∀ m ∈ ms, m.position.offset < n := by
  intro m hm
  obtain ⟨i, hi⟩ := List.mem_iff_getElem?.mp hm
  exact (h.sited i m hi).lt

theorem Log.ordered (h : Log cs n es ms) : Ordered ms := by
  induction h with
  | blank => exact fun i j m m' hij hm => nomatch hm
  | wait _ _ ih | sect _ _ ih | array _ _ ih => exact ih
  | token h _ _ ih => exact ih.snoc h.lt (Nat.le_refl _)
  | argument h _ _ ih => exact ih.snoc h.lt (Nat.le_refl _)
  | expression h _ _ ih => exact ih.pair h.lt rfl rfl rfl
  | further h _ _ _ _ _ ih => exact ih.pair h.lt rfl rfl rfl

/-! ## Entities -/

/-- An entity stands at its bracket, or where its root node does. -/
def EntityMark.Means (cs : List Char) (ms : List ElementMark) (e : EntityMark) : Prop :=
  match e.sort with
  | .sect => cs[e.position.offset]? = some '#'
  | .array => cs[e.position.offset]? = some '['
  | .expression root => ∃ m, ms[root]? = some m ∧ m.position = e.position

structure EntityMark.Sited (cs : List Char) (n : Nat) (ms : List ElementMark) (e : EntityMark) :
    Prop where
  position : e.position = .ofOffset cs e.position.offset
  lt : e.position.offset < n
  means : e.Means cs ms

theorem EntityMark.Means.append {e : EntityMark} (h : e.Means cs ms) (ms' : List ElementMark) :
    e.Means cs (ms ++ ms') := by
  rw [Means] at h ⊢
  split at h
  · exact h
  · exact h
  · obtain ⟨m, hm, hposition⟩ := h
    refine ⟨m, ?_, hposition⟩
    rw [List.getElem?_append_left (List.getElem?_eq_some_iff.mp hm).1, hm]

theorem EntityMark.Sited.mono {e : EntityMark} (h : e.Sited cs n ms) (hn : n ≤ n')
    (ms' : List ElementMark) : e.Sited cs n' (ms ++ ms') :=
  ⟨h.position, Nat.lt_of_lt_of_le h.lt hn, h.means.append ms'⟩

theorem forall_mem_snoc {α : Type} {P : α → Prop} {as : List α} {a : α} (h : ∀ b ∈ as, P b)
    (ha : P a) : ∀ b ∈ as ++ [a], P b :=
  List.forall_mem_append.mpr ⟨h, List.forall_mem_singleton.mpr ha⟩

theorem Log.entitiesSited (h : Log cs n es ms) : ∀ e ∈ es, e.Sited cs n ms := by
  induction h with
  | blank => exact fun e he => nomatch he
  | wait _ hn ih => exact fun e he => by simpa using (ih e he).mono hn []
  | sect _ hc ih =>
    refine forall_mem_snoc (fun e he => by simpa using (ih e he).mono (Nat.le_succ _) []) ?_
    exact ⟨rfl, Nat.lt_succ_self _, hc⟩
  | array _ hc ih =>
    refine forall_mem_snoc (fun e he => by simpa using (ih e he).mono (Nat.le_succ _) []) ?_
    exact ⟨rfl, Nat.lt_succ_self _, hc⟩
  | token _ hspells _ ih => exact fun e he => (ih e he).mono (Nat.le_of_lt hspells.lt) _
  | argument _ _ _ ih => exact fun e he => (ih e he).mono (Nat.le_succ _) _
  | expression _ _ hspells ih =>
    refine forall_mem_snoc (fun e he => (ih e he).mono (Nat.le_of_lt hspells.lt) _) ?_
    exact ⟨rfl, hspells.lt, ⟨.node, "", none, _⟩, by simp, rfl⟩
  | further _ _ _ _ _ hspells ih => exact fun e he => (ih e he).mono (Nat.le_of_lt hspells.lt) _

def EntitiesOrdered (es : List EntityMark) : Prop :=
  es.Pairwise fun e e' : EntityMark => e.position.offset < e'.position.offset

theorem Log.entitiesOrdered_snoc {e : EntityMark} (h : Log cs k es ms) (hes : EntitiesOrdered es)
    (he : k ≤ e.position.offset) : EntitiesOrdered (es ++ [e]) := by
  refine List.pairwise_append.mpr ⟨hes, List.pairwise_singleton .., fun e₁ h₁ e₂ h₂ => ?_⟩
  rw [List.mem_singleton.mp h₂]
  exact Nat.lt_of_lt_of_le (h.entitiesSited e₁ h₁).lt he

theorem Log.entitiesOrdered (h : Log cs n es ms) : EntitiesOrdered es := by
  induction h with
  | blank => exact .nil
  | wait _ _ ih | token _ _ _ ih | argument _ _ _ ih | further _ _ _ _ _ _ ih =>
    exact ih
  | sect h _ ih | array h _ ih | expression h _ _ ih =>
    exact h.entitiesOrdered_snoc ih (Nat.le_refl _)

end Formulary

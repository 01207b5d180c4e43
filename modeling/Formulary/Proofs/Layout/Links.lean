import Formulary.Proofs.Layout.Placed

/-!
# Links between the rows of a table

Each row of a table names its parent and lists its children.  In a table in which trees are laid out
one after the other, these links make up exactly these trees, and the rows in their order are the
nodes in pre-order.

* `Links`: the links of a table.
* `Links.Linked`: some rows of a table are linked as trees below given tops.
* `Links.linked_cells`: trees that are laid out are linked so.
* `Links.Forest`: a whole table is; `Links.Linked.forest`.
-/

namespace Formulary

/-- The links of a table: what each row names as its parent and lists as its children. -/
structure Links where
  parent : Nat → Option Nat
  children : Nat → List Nat

namespace Links

variable {α : Type} {l : Links} {lo mid hi id : Nat} {tops tops' : List Nat}

/-- The node at a place with all that is below it, node by node, each before its children; `n` is
the number of levels below it that are listed. -/
def preorder (l : Links) : Nat → Nat → List Nat
  | 0, id => [id]
  | n + 1, id => id :: (l.children id).flatMap (l.preorder n)

/-- What is reached from a node by going from parents to children. -/
inductive Below (l : Links) (top : Nat) : Nat → Prop
  | top : Below l top top
  | child {i c : Nat} : Below l top i → c ∈ l.children i → Below l top c

/-! ## Rows -/

/-- The rows from a place on are linked as trees below some tops, which lie among them. -/
structure Linked (l : Links) (lo hi : Nat) (tops : List Nat) : Prop where
  stored : ∀ i, lo ≤ i → i < hi → ∀ c ∈ l.children i, i < c ∧ c < hi ∧ l.parent c = some i
  ordered : ∀ i, lo ≤ i → i < hi → (l.children i).Pairwise (· < ·)
  listed : ∀ i, lo ≤ i → i < hi → i ∈ tops ∨
    ∃ p, l.parent i = some p ∧ lo ≤ p ∧ p < i ∧ i ∈ l.children p
  inside : ∀ t ∈ tops, lo ≤ t ∧ t < hi
  preorder : ∀ n, hi - lo ≤ n → tops.flatMap (l.preorder n) = List.range' lo (hi - lo)

theorem linked_nil (l : Links) (lo : Nat) : l.Linked lo lo [] where
  stored i hlo hhi := absurd hhi (by omega)
  ordered i hlo hhi := absurd hhi (by omega)
  listed i hlo hhi := absurd hhi (by omega)
  inside _ h := nomatch h
  preorder n _ := by simp

theorem Linked.append (h : l.Linked lo mid tops) (h' : l.Linked mid hi tops') (hlo : lo ≤ mid)
    (hhi : mid ≤ hi) : l.Linked lo hi (tops ++ tops') where
  stored i hi₁ hi₂ c hc := by
    by_cases hm : i < mid
    · obtain ⟨h₁, h₂, h₃⟩ := h.stored i hi₁ hm c hc
      exact ⟨h₁, by omega, h₃⟩
    · exact h'.stored i (by omega) hi₂ c hc
  ordered i hi₁ hi₂ := by
    by_cases hm : i < mid
    · exact h.ordered i hi₁ hm
    · exact h'.ordered i (by omega) hi₂
  listed i hi₁ hi₂ := by
    by_cases hm : i < mid
    · rcases h.listed i hi₁ hm with htop | hp
      · exact .inl (List.mem_append_left _ htop)
      · exact .inr hp
    · rcases h'.listed i (by omega) hi₂ with htop | ⟨p, hp, hmid, hlt, hmem⟩
      · exact .inl (List.mem_append_right _ htop)
      · exact .inr ⟨p, hp, by omega, hlt, hmem⟩
  inside t ht := by
    rcases List.mem_append.mp ht with ht | ht
    · have := h.inside t ht
      omega
    · have := h'.inside t ht
      omega
  preorder n hn := by
    obtain ⟨a, rfl⟩ := Nat.exists_eq_add_of_le hlo
    obtain ⟨b, rfl⟩ := Nat.exists_eq_add_of_le hhi
    rw [List.flatMap_append, h.preorder n (by omega), h'.preorder n (by omega),
      Nat.add_sub_cancel_left, Nat.add_sub_cancel_left, List.range'_append_1, Nat.add_assoc,
      Nat.add_sub_cancel_left]

theorem Linked.node (h : l.Linked (id + 1) hi (l.children id)) (hid : id < hi)
    (hparent : ∀ c ∈ l.children id, l.parent c = some id)
    (hordered : (l.children id).Pairwise (· < ·)) : l.Linked id hi [id] where
  stored i hi₁ hi₂ c hc := by
    rcases Nat.eq_or_lt_of_le hi₁ with rfl | hlt
    · have := h.inside c hc
      exact ⟨by omega, by omega, hparent c hc⟩
    · exact h.stored i hlt hi₂ c hc
  ordered i hi₁ hi₂ := by
    rcases Nat.eq_or_lt_of_le hi₁ with rfl | hlt
    · exact hordered
    · exact h.ordered i hlt hi₂
  listed i hi₁ hi₂ := by
    rcases Nat.eq_or_lt_of_le hi₁ with rfl | hlt
    · exact .inl (List.mem_singleton.mpr rfl)
    · rcases h.listed i hlt hi₂ with htop | ⟨p, hp, hle, hlt, hmem⟩
      · exact .inr ⟨id, hparent i htop, Nat.le_refl id, hlt, htop⟩
      · exact .inr ⟨p, hp, by omega, hlt, hmem⟩
  inside t ht := by
    rw [List.mem_singleton] at ht
    omega
  preorder n hn := by
    obtain ⟨m, rfl⟩ : ∃ m, n = m + 1 := ⟨n - 1, by omega⟩
    rw [List.flatMap_singleton, Links.preorder, h.preorder m (by omega),
      show hi - id = (hi - (id + 1)) + 1 by omega, List.range'_succ]

/-! ## Trees that are laid out -/

/-- The rows from a place on have the links of these cells. -/
def Shows (l : Links) : Nat → List (Cell α) → Prop
  | _, [] => True
  | id, c :: cs => l.parent id = c.parent ∧ l.children id = c.children ∧ l.Shows (id + 1) cs

theorem Shows.append : ∀ {id : Nat} {cs ds : List (Cell α)}, l.Shows id (cs ++ ds) →
    l.Shows id cs ∧ l.Shows (id + cs.length) ds
  | _, [], _, h => ⟨trivial, h⟩
  | id, c :: cs, ds, ⟨hparent, hchildren, h⟩ => by
    obtain ⟨hcs, hds⟩ := Shows.append h
    rw [Nat.add_assoc, Nat.add_comm 1] at hds
    exact ⟨⟨hparent, hchildren, hcs⟩, hds⟩

theorem Shows.parent_eq {parent : Nat} : ∀ {id : Nat} {ts : List (Rose α)},
    l.Shows id (Rose.rowCells parent id ts) →
    ∀ c ∈ Rose.places id ts, l.parent c = some parent
  | _, [], _, _, hc => nomatch hc
  | id, .node a us :: ts, h, c, hc => by
    rw [Rose.rowCells_cons] at h
    rw [Rose.places_cons, List.mem_cons] at hc
    rcases hc with rfl | hc
    · exact h.1
    · have hts := h.append.2
      rw [Rose.length_cells] at hts
      exact hts.parent_eq c hc

mutual

/-- A tree that is laid out is linked below its root. -/
theorem linked_cells {parent : Option Nat} {id : Nat} : ∀ t : Rose α,
    l.Shows id (t.cells parent id) → l.Linked id (id + t.size) [id]
  | .node a ts, h => by
    obtain ⟨-, hchildren, hrow⟩ := h
    rw [Rose.size_node, ← Nat.add_assoc, Nat.add_right_comm]
    refine .node ?_ (by omega) ?_ ?_ <;> rw [hchildren]
    · exact linked_rowCells ts hrow
    · exact hrow.parent_eq
    · exact Rose.pairwise_places (id + 1) ts

theorem linked_rowCells {parent id : Nat} : ∀ ts : List (Rose α),
    l.Shows id (Rose.rowCells parent id ts) → l.Linked id (id + Rose.sizes ts) (Rose.places id ts)
  | [], _ => linked_nil l id
  | t :: ts, h => by
    rw [Rose.rowCells_cons] at h
    have hparts := h.append
    rw [Rose.length_cells] at hparts
    have hts := linked_rowCells ts hparts.2
    rw [Nat.add_assoc] at hts
    exact (linked_cells t hparts.1).append hts (Nat.le_add_right ..)
      (by rw [Rose.sizes_cons]; omega)

end

/-! ## Whole tables -/

/-- Every row of a table of `n` rows is linked into trees below given roots, each of which follows
the one before. -/
structure Forest (l : Links) (n : Nat) (roots : List Nat) : Prop where
  /-- A root is in the table and has no parent, and no row lists it. -/
  root : ∀ r ∈ roots, r < n ∧ l.parent r = none ∧ ∀ i < n, r ∉ l.children i
  /-- Every other row has a parent before it, which lists it once, and no other row lists it. -/
  inner : ∀ i < n, i ∉ roots → ∃ p, l.parent i = some p ∧ p < i ∧ (l.children p).count i = 1 ∧
    ∀ q < n, i ∈ l.children q → q = p
  /-- What a row lists stands after it in the table. -/
  stored : ∀ i < n, ∀ c ∈ l.children i, i < c ∧ c < n
  reached : ∀ i < n, ∃ r ∈ roots, l.Below r i
  /-- The rows in their order are the pre-order of the trees. -/
  preorder : roots.flatMap (l.preorder n) = List.range n

theorem Linked.below (h : l.Linked lo hi tops) :
    ∀ i, lo ≤ i → i < hi → ∃ t ∈ tops, l.Below t i := by
  intro i
  induction i using Nat.strongRecOn with
  | ind i ih =>
  intro hlo hhi
  rcases h.listed i hlo hhi with htop | ⟨p, -, hle, hlt, hmem⟩
  · exact ⟨i, htop, .top⟩
  · obtain ⟨t, ht, hbelow⟩ := ih p hlt hle (by omega)
    exact ⟨t, ht, .child hbelow hmem⟩

theorem count_eq_one {i : Nat} {is : List Nat} (h : is.Pairwise (· < ·)) (hi : i ∈ is) :
    is.count i = 1 := by
  have hnodup : is.Nodup := h.imp fun hlt => Nat.ne_of_lt hlt
  rw [hnodup.count, if_pos hi]

theorem Linked.forest {n : Nat} (h : l.Linked 0 n tops) (hroot : ∀ t ∈ tops, l.parent t = none) :
    l.Forest n tops where
  root r hr := by
    refine ⟨(h.inside r hr).2, hroot r hr, fun i hi hmem => ?_⟩
    have hparent := (h.stored i (Nat.zero_le i) hi r hmem).2.2
    rw [hroot r hr] at hparent
    cases hparent
  inner i hi hne := by
    rcases h.listed i (Nat.zero_le i) hi with htop | ⟨p, hp, -, hlt, hmem⟩
    · exact absurd htop hne
    refine ⟨p, hp, hlt, count_eq_one (h.ordered p (Nat.zero_le p) (by omega)) hmem, ?_⟩
    intro q hq hmem'
    have hparent := (h.stored q (Nat.zero_le q) hq i hmem').2.2
    rw [hp, Option.some.injEq] at hparent
    exact hparent.symm
  stored i hi c hc := by
    obtain ⟨h₁, h₂, -⟩ := h.stored i (Nat.zero_le i) hi c hc
    exact ⟨h₁, h₂⟩
  reached i hi := h.below i (Nat.zero_le i) hi
  preorder := by
    rw [h.preorder n (by omega), Nat.sub_zero, List.range_eq_range']

/-- A root begins its own pre-order, so that the roots come in their order among all rows. -/
theorem Forest.sublist {n : Nat} {roots : List Nat} (h : l.Forest n roots) :
    roots.Sublist (List.range n) := by
  have hfirst : ∀ r, [r].Sublist (l.preorder n r) := fun r => by
    cases n with
    | zero => exact .refl _
    | succ n => exact (List.nil_sublist _).cons_cons r
  rw [← h.preorder]
  clear h
  induction roots with
  | nil => exact .slnil
  | cons r roots ih => exact (hfirst r).append ih

end Links

end Formulary

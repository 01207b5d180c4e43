import Formulary.Proofs.Calculator.Phrase

/-!
# Splitting at the weakest operator

A phrase with operators is a left phrase, its last operator of least priority, and a right phrase.
The tree that is built from the left has that operator at its root, over the trees of both.

* `Phrase.join`: two phrases with an operator between them.
* `Phrase.operation_join`: the tree of two phrases around the weakest operator.
* `Phrase.exists_weakest`: every phrase with operators is one of these.
* `Phrase.ofRow_tokens`: the tree of the row of a phrase is the tree of the phrase.
-/

namespace Formulary

variable {α : Type}

open Operation

/-! ## The operators of a phrase -/

mutual

theorem Atom.cuts_skip (depth : Nat) (before rest : List (Token α)) : ∀ t : Atom α,
    cuts depth before (t.tokens ++ rest) = cuts depth (before ++ t.tokens) rest
  | .operand a => rfl
  | .paren inside => by
    have hinside := Phrase.cuts_inside depth (before ++ [.openParen]) (.closeParen :: rest) inside
    have hopen : cuts depth before ((Atom.paren inside).tokens ++ rest) =
        cuts (depth + 1) (before ++ [.openParen]) (inside.tokens ++ .closeParen :: rest) := by
      rw [Atom.tokens, List.cons_append, List.append_assoc]
      rfl
    rw [hopen, hinside, cuts, Nat.add_sub_cancel, Atom.tokens]
    simp

theorem Phrase.cuts_inside (depth : Nat) (before rest : List (Token α)) : ∀ f : Phrase α,
    cuts (depth + 1) before (f.tokens ++ rest) = cuts (depth + 1) (before ++ f.tokens) rest
  | .atom t => Atom.cuts_skip (depth + 1) before rest t
  | .operate left a p right => by
    rw [Phrase.tokens, List.append_assoc, Phrase.cuts_inside depth before _ left, List.cons_append,
      cuts, if_neg (Nat.succ_ne_zero depth), Atom.cuts_skip]
    simp

end

/-- The operators of a phrase outside all parentheses, with what stands behind the phrase. -/
def Phrase.cuts (rest : List (Token α)) : Phrase α → List (Cut α)
  | .atom _ => []
  | .operate left a p right =>
    left.cuts (.operator a p :: (right.tokens ++ rest)) ++
      [⟨left.tokens, a, p, right.tokens ++ rest⟩]

theorem Phrase.cuts_tokens (rest : List (Token α)) (f : Phrase α) :
    Operation.cuts 0 [] (f.tokens ++ rest) = f.cuts rest ++ Operation.cuts 0 f.tokens rest := by
  induction f using Phrase.induction generalizing rest with
  | atom t => exact Atom.cuts_skip 0 [] rest t
  | operate left a p right ih =>
    rw [Phrase.tokens, List.append_assoc, List.cons_append, ih, Operation.cuts, if_pos rfl,
      Atom.cuts_skip, Phrase.cuts]
    simp

/-! ## The weakest operator -/

theorem weakest_concat (cs : List (Cut α)) (c : Cut α) : weakest (cs ++ [c]) =
    some (match weakest cs with
      | none => c
      | some w => weaker w c) := by
  cases cs with
  | nil => rfl
  | cons d cs => simp [weakest]

def Phrase.join (left : Phrase α) (a : α) (p : Int) : Phrase α → Phrase α
  | .atom t => .operate left a p t
  | .operate f b q t => .operate (left.join a p f) b q t

theorem Phrase.tokens_join (left : Phrase α) (a : α) (p : Int) (right : Phrase α) :
    (left.join a p right).tokens = left.tokens ++ .operator a p :: right.tokens := by
  induction right using Phrase.induction with
  | atom t => rfl
  | operate f b q t ih => simp [Phrase.join, Phrase.tokens, ih]

/-- The priorities of the operators of a phrase outside all parentheses. -/
def Phrase.priorities : Phrase α → List Int
  | .atom _ => []
  | .operate left _ p _ => left.priorities ++ [p]

theorem Phrase.priorities_join (left : Phrase α) (a : α) (p : Int) (right : Phrase α) :
    (left.join a p right).priorities = left.priorities ++ p :: right.priorities := by
  induction right using Phrase.induction with
  | atom t => rfl
  | operate f b q t ih => simp [Phrase.join, Phrase.priorities, ih]

/-- A phrase with operators is split at one that binds weaker than all later ones, and as weak as
all earlier ones. -/
theorem Phrase.exists_weakest (f : Phrase α) : (∃ t, f = .atom t) ∨
    ∃ (left : Phrase α) (a : α) (p : Int) (right : Phrase α), f = left.join a p right ∧
      (∀ q ∈ left.priorities, p ≤ q) ∧ (∀ q ∈ right.priorities, p < q) ∧
      ∀ rest, weakest (f.cuts rest) = some ⟨left.tokens, a, p, right.tokens ++ rest⟩ := by
  induction f using Phrase.induction with
  | atom t => exact .inl ⟨t, rfl⟩
  | operate f b q t ih =>
    right
    rcases ih with ⟨s, rfl⟩ | ⟨left, a, p, right, rfl, hleft, hright, hcuts⟩
    · exact ⟨.atom s, b, q, .atom t, rfl, by simp [Phrase.priorities],
        by simp [Phrase.priorities], fun rest => rfl⟩
    · have hnew : ∀ rest, weakest ((Phrase.operate (left.join a p right) b q t).cuts rest) =
          some (weaker ⟨left.tokens, a, p, right.tokens ++ .operator b q :: (t.tokens ++ rest)⟩
            ⟨(left.join a p right).tokens, b, q, t.tokens ++ rest⟩) := by
        intro rest
        rw [Phrase.cuts, weakest_concat, hcuts]
      -- the last operator splits the phrase unless an earlier one binds weaker
      by_cases hle : q ≤ p
      · refine ⟨left.join a p right, b, q, .atom t, rfl, ?_, by simp [Phrase.priorities], ?_⟩
        · intro r hr
          rw [Phrase.priorities_join, List.mem_append, List.mem_cons] at hr
          rcases hr with hr | rfl | hr
          · exact Int.le_trans hle (hleft r hr)
          · exact hle
          · exact Int.le_trans hle (Int.le_of_lt (hright r hr))
        · intro rest
          rw [hnew, weaker, if_pos hle]
          rfl
      · have hlt : p < q := by omega
        refine ⟨left, a, p, .operate right b q t, rfl, hleft, ?_, ?_⟩
        · intro r hr
          rw [Phrase.priorities, List.mem_append, List.mem_singleton] at hr
          rcases hr with hr | rfl
          · exact hright r hr
          · exact hlt
        · intro rest
          rw [hnew, weaker, if_neg hle, Phrase.tokens]
          simp

/-! ## Trees -/

namespace Spine

theorem mem_of_mem_settle {p : Int} {hs : List (Half α)} {last : Operation α} {h : Half α}
    (hh : h ∈ (settle p hs last).halves) : h ∈ hs := by
  induction hs generalizing last with
  | nil => exact hh
  | cons half hs ih =>
    rw [settle] at hh
    split at hh
    · exact List.mem_cons_of_mem half (ih hh)
    · exact hh

end Spine

theorem Phrase.priority_mem {f : Phrase α} {h : Half α} (hh : h ∈ f.spine.halves) :
    h.priority ∈ f.priorities := by
  induction f using Phrase.induction with
  | atom t => cases hh
  | operate left a p right ih =>
    rw [Phrase.spine, List.mem_cons] at hh
    rw [Phrase.priorities, List.mem_append, List.mem_singleton]
    rcases hh with rfl | hh
    · exact .inr rfl
    · exact .inl (ih (Spine.mem_of_mem_settle hh))

/-- Around the weakest operator: all that is open on the left is closed, and the operator itself
stays open. -/
theorem Phrase.spine_join {left right : Phrase α} {p : Int} (a : α)
    (hleft : ∀ q ∈ left.priorities, p ≤ q) (hright : ∀ q ∈ right.priorities, p < q) :
    (left.join a p right).spine =
      ⟨right.spine.halves ++ [⟨a, p, left.operation⟩], right.spine.last⟩ := by
  induction right using Phrase.induction with
  | atom t =>
    have hsettle := Spine.settle_of_forall_le
      (fun h hh => hleft _ (Phrase.priority_mem hh)) left.spine.last
    simp only [Phrase.join, Phrase.spine, hsettle]
    rfl
  | operate f b q t ih =>
    simp only [Phrase.priorities, List.mem_append, List.mem_singleton] at hright
    have hf := ih fun r hr => hright r (.inl hr)
    have hsettle := @Spine.settle_concat α q ⟨a, p, left.operation⟩
      (hright q (.inr rfl)) f.spine.halves f.spine.last
    simp only [Phrase.join, Phrase.spine, hf, hsettle]
    rfl

theorem Phrase.operation_join {left right : Phrase α} {p : Int} (a : α)
    (hleft : ∀ q ∈ left.priorities, p ≤ q) (hright : ∀ q ∈ right.priorities, p < q) :
    (left.join a p right).operation = .apply a left.operation right.operation := by
  rw [Phrase.operation, Phrase.spine_join a hleft hright]
  exact Spine.close_concat _ _ _

theorem Atom.tokens_ne_nil (t : Atom α) : t.tokens ≠ [] := by
  cases t <;> simp [Atom.tokens]

theorem Phrase.tokens_ne_nil (f : Phrase α) : f.tokens ≠ [] := by
  cases f with
  | atom t => exact t.tokens_ne_nil
  | operate left a p right => simp [Phrase.tokens]

theorem Phrase.cuts_eq (f : Phrase α) : Operation.cuts 0 [] f.tokens = f.cuts [] := by
  have hcuts := f.cuts_tokens []
  rwa [List.append_nil, Operation.cuts, List.append_nil] at hcuts

theorem Phrase.ofRowWithin_tokens (steps : Nat) : ∀ f : Phrase α, f.tokens.length ≤ steps →
    ofRowWithin steps f.tokens = some f.operation := by
  -- not on the phrase: what stands on either side of the weakest operator is no part of it
  induction steps with
  | zero =>
    intro f hlength
    exact absurd (List.length_eq_zero_iff.mp (Nat.le_zero.mp hlength)) f.tokens_ne_nil
  | succ steps ih =>
    intro f hlength
    unfold ofRowWithin
    rw [f.cuts_eq]
    rcases f.exists_weakest with ⟨t, rfl⟩ | ⟨left, a, p, right, rfl, hleft, hright, hcuts⟩
    · cases t with
      | operand a => rfl
      | paren inside =>
        have hinside : inside.tokens.length ≤ steps := by
          simp [Phrase.tokens, Atom.tokens] at hlength
          omega
        simp [Phrase.tokens, Atom.tokens, Phrase.cuts, weakest, ih inside hinside]
        rfl
    · rw [Phrase.tokens_join, List.length_append, List.length_cons] at hlength
      rw [hcuts, List.append_nil, Phrase.operation_join a hleft hright]
      simp [ih left (by omega), ih right (by omega)]

/-- The tree of the row of a phrase is the tree that is built from the left. -/
theorem Phrase.ofRow_tokens (f : Phrase α) : ofRow? f.tokens = some f.operation :=
  f.ofRowWithin_tokens _ (Nat.le_refl _)

end Formulary

import Formulary.Proofs.Calculator.Phrase

/-!
# Ordering in one pass

The one pass over a phrase keeps the right edge of its tree: what is at the left of the edge has
been put in order, and the operators of the edge wait, the innermost in front.

* `Spine.emitted`, `Spine.held`: an edge as it is kept.
* `Phrase.read`: reading a phrase leaves its edge.
* `Phrase.order_tokens`: the postfix order of a phrase is the postorder of its tree.
-/

namespace Formulary

variable {α : Type}

theorem append_list_append (out : Array α) (xs ys : List α) : out ++ (xs ++ ys) = out ++ xs ++ ys :=
  Array.ext' (by simp)

namespace Spine

def emitted (hs : List (Half α)) (last : Operation α) : List α := shown hs ++ last.postorder

def held (hs : List (Half α)) : List (Waiting α) :=
  hs.map fun h => .operator h.operator h.priority

theorem emitted_apply (h : Half α) (hs : List (Half α)) (last : Operation α) :
    emitted hs (.apply h.operator h.left last) = emitted (h :: hs) last ++ [h.operator] := by
  simp [emitted, shown, Operation.postorder]

end Spine

open Spine

/-- Nothing waits, or a parenthesis does. -/
def Barrier : List (Waiting α) → Prop
  | .operator _ _ :: _ => False
  | _ => True

namespace Postfix

theorem settle_barrier {below : List (Waiting α)} (hb : Barrier below) (p : Int) (out : Array α) :
    settle p out below = ⟨out, below⟩ := by
  cases below with
  | nil => rfl
  | cons w below =>
    cases w with
    | operator a q => exact hb.elim
    | openParen => rfl

/-- A new operator puts in order what it closes of the edge. -/
theorem settle_spine {below : List (Waiting α)} (hb : Barrier below) (p : Int) (out : Array α)
    (hs : List (Half α)) (last : Operation α) :
    settle p (out ++ emitted hs last) (held hs ++ below) =
      ⟨out ++ emitted (Spine.settle p hs last).halves (Spine.settle p hs last).last,
        held (Spine.settle p hs last).halves ++ below⟩ := by
  induction hs generalizing last with
  | nil => exact settle_barrier hb p _
  | cons h hs ih =>
    by_cases hle : p ≤ h.priority
    · rw [settle_cons_of_le hle, ← ih, emitted_apply, append_list_append]
      simp [held, settle, hle]
    · have hlt : h.priority < p := by omega
      rw [settle_cons_of_lt hlt]
      simp [held, settle, hle]

theorem close_spine (below : List (Waiting α)) (out : Array α) (hs : List (Half α))
    (last : Operation α) :
    close (out ++ emitted hs last) (held hs ++ .openParen :: below) =
      ⟨out ++ (Spine.close hs last).postorder, below⟩ := by
  induction hs generalizing last with
  | nil => simp [held, close, Spine.close, emitted, shown]
  | cons h hs ih =>
    rw [Spine.close, ← ih, emitted_apply, append_list_append]
    simp [held, close]

theorem drain_spine (out : Array α) (hs : List (Half α)) (last : Operation α) :
    drain (out ++ emitted hs last) (held hs) = out ++ (Spine.close hs last).postorder := by
  induction hs generalizing last with
  | nil => simp [held, drain, Spine.close, emitted, shown]
  | cons h hs ih =>
    rw [Spine.close, ← ih, emitted_apply, append_list_append]
    simp [held, drain]

end Postfix

mutual

theorem Atom.read (out : Array α) (below : List (Waiting α)) : ∀ t : Atom α,
    t.tokens.foldl Postfix.next ⟨out, below⟩ = ⟨out ++ t.operation.postorder, below⟩
  | .operand a => by simp [Atom.tokens, Postfix.next, Atom.operation, Operation.postorder]
  | .paren inside => by
    rw [Atom.tokens, List.foldl_cons, List.foldl_append, Postfix.next,
      Phrase.read out (show Barrier (.openParen :: below) from trivial) inside]
    exact Postfix.close_spine below out _ _

/-- Reading a phrase leaves the right edge of its tree. -/
theorem Phrase.read (out : Array α) {below : List (Waiting α)} (hb : Barrier below) :
    ∀ f : Phrase α, f.tokens.foldl Postfix.next ⟨out, below⟩ =
      ⟨out ++ emitted f.spine.halves f.spine.last, held f.spine.halves ++ below⟩
  | .atom t => by
    rw [Phrase.tokens, Atom.read out below t]
    simp [Phrase.spine, emitted, shown, held]
  | .operate left a p right => by
    rw [Phrase.tokens, List.foldl_append, Phrase.read out hb left, List.foldl_cons, Postfix.next]
    simp only [Postfix.settle_spine hb]
    rw [Atom.read, ← append_list_append]
    simp [Phrase.spine, emitted, shown, held]

end

/-- The postfix order of a phrase is the postorder of its tree. -/
theorem Phrase.order_tokens (f : Phrase α) :
    Postfix.order f.tokens = f.operation.postorder := by
  have hread := Phrase.read #[] (show Barrier [] from trivial) f
  rw [List.append_nil] at hread
  rw [Postfix.order]
  simp only [hread]
  rw [Postfix.drain_spine]
  simp [Phrase.operation, Spine.operation]

end Formulary

import Formulary.Proofs.Layout.Links

/-!
# The open nodes of a table

The open nodes of a tree that grows at its right edge are its *spine*: from the innermost of them
the parents lead through all the others to the root.

* `Links.Path`: from a node through its parents to a node without one.
* `Frame.spine`: the places of frames.
* `Frame.path_spine`: the parents of the innermost frame.
* `Frame.not_mem_spine`: what is complete inside a frame is beside the spine.
-/

namespace Formulary

/-- The nodes from one node on to the root above it, each followed by its parent. -/
inductive Links.Path (l : Links) : Nat → List Nat → Prop where
  | root {id : Nat} : l.parent id = none → Path l id [id]
  | step {id parent : Nat} {ids : List Nat} : l.parent id = some parent → Path l parent ids →
      Path l id (id :: ids)

namespace Frame

variable {α : Type} {base : Nat}

def spine (base : Nat) : List (Frame α) → List Nat
  | [] => []
  | _ :: fs => next base fs :: spine base fs

theorem next_le_append (base : Nat) (gs fs : List (Frame α)) :
    next base fs ≤ next base (gs ++ fs) := by
  induction gs with
  | nil => exact Nat.le_refl _
  | cons g gs ih =>
    rw [List.cons_append, next_cons]
    omega

theorem lt_of_mem_spine {fs : List (Frame α)} {p : Nat} (hp : p ∈ spine base fs) :
    p < next base fs := by
  induction fs with
  | nil => cases hp
  | cons f fs ih =>
    rw [next_cons]
    rcases List.mem_cons.mp hp with rfl | hp
    · omega
    · have := ih hp
      omega

theorem next_mem_spine (gs : List (Frame α)) (f : Frame α) (fs : List (Frame α)) :
    next base fs ∈ spine base (gs ++ f :: fs) := by
  induction gs with
  | nil => exact List.mem_cons_self
  | cons g gs ih => exact List.mem_cons_of_mem _ ih

theorem not_mem_spine {f : Frame α} {fs : List (Frame α)} {p : Nat} (hlt : next base fs < p)
    (hle : p < next base (f :: fs)) (gs : List (Frame α)) : p ∉ spine base (gs ++ f :: fs) := by
  induction gs with
  | nil =>
    intro hp
    rcases List.mem_cons.mp hp with rfl | hp
    · exact Nat.lt_irrefl _ hlt
    · exact Nat.lt_asymm hlt (lt_of_mem_spine hp)
  | cons g gs ih =>
    intro hp
    have hnext := next_le_append base gs (f :: fs)
    rcases List.mem_cons.mp hp with hp | hp
    · have hp : p = next base (gs ++ f :: fs) := hp
      omega
    · exact ih hp

theorem getLast?_spine (f : Frame α) (fs : List (Frame α)) :
    (spine base (f :: fs)).getLast? = some base := by
  induction fs generalizing f with
  | nil => rfl
  | cons g fs ih =>
    rw [spine, List.getLast?_cons, ih g]
    rfl

theorem path_spine {l : Links} {f : Frame α} {fs : List (Frame α)}
    (h : ∀ g fs', g :: fs' <:+ f :: fs → l.parent (next base fs') = top? base fs') :
    l.Path (next base fs) (spine base (f :: fs)) := by
  induction fs generalizing f with
  | nil => exact .root (h f [] (List.suffix_refl _))
  | cons g fs ih =>
    refine .step (h f (g :: fs) (List.suffix_refl _)) (ih fun g' fs' hsuffix => ?_)
    exact h g' fs' (hsuffix.trans (List.suffix_cons f (g :: fs)))

end Frame

end Formulary

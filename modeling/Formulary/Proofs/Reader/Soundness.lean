import Formulary.Proofs.Document.Words
import Formulary.Proofs.Reader.Simulation
import Formulary.Proofs.Reader.Trace
import Formulary.Proofs.Tree.Shown

/-!
# Every tree says what its text says

* `Tree.wellFormed_of_read`: the tree of a text is well formed.
* `Tree.bare_eq`: the glyphs of a text are those of its tree.
* `Tree.read_sound`: both.
-/

namespace Formulary

variable {ops : List String} {source : String} {filename : Option String} {tree : Tree}

/-- The tree of a text is well formed. -/
theorem Tree.wellFormed_of_read (h : Tree.read source ops filename = .ok tree) :
    tree.WellFormed ops := by
  obtain ⟨s, d, -, -, -, hd, hentities, helements⟩ := Tree.read_nested h
  exact Tree.wellFormed_of_tables hd hentities helements

/-- A text of which the tree passes a check. -/
theorem Tree.exists_of_any {p : Tree → Bool}
    (h : (Tree.read source ops filename).toOption.any p) :
    ∃ tree, Tree.read source ops filename = .ok tree ∧ p tree := by
  cases hread : Tree.read source ops filename with
  | error e =>
    rw [hread] at h
    cases h
  | ok tree =>
    rw [hread] at h
    exact ⟨tree, rfl, h⟩

/-! ## Glyphs -/

/-- A point that is read outside strings at the end was one more glyph. -/
theorem Scan.written_next_point {scan : Scan} (h : (scan.next '.').mode = .outside) :
    (scan.next '.').written = scan.written ++ [.char '.'] := by
  obtain ⟨w, mode⟩ := scan
  cases mode with
  | outside => rfl
  | inside text => cases h
  | escaped text => cases h

theorem plainBreaks_concat_point (cs : List Char) :
    plainBreaks (cs ++ ['.']) = plainBreaks cs ++ ['.'] := by
  induction cs with
  | nil => rfl
  | cons c cs ih =>
    rw [List.cons_append, plainBreaks_cons, ih, plainBreaks_cons, List.cons_append]
    cases cs with
    | nil => simp [plainBreak]
    | cons d ds => rfl

/-- The glyphs of a text are those of its tree, perhaps with the final point. -/
theorem Tree.bare_eq (h : Tree.read source ops filename = .ok tree)
    (hops : ∀ op ∈ ops, '"' ∉ op.toList) :
    tree.outline.bare = bareSource source ∨
      tree.outline.bare ++ [.char '.'] = bareSource source := by
  obtain ⟨s, d, hread, hphase, hnest, -, hholds⟩ := Tree.read_nested h
  have htraced := Nested.traced_initial.read hops Nested.staged_initial (prepare_ne source) hread
  have hmode : ((prepare source).1.foldl Scan.next .start).mode = .outside := by
    rw [htraced.mode, Nested.scanMode, hphase]
  have hwritten : ((prepare source).1.foldl Scan.next .start).written =
      tree.outline.bare ++ [.char '.'] := by
    have hstate := htraced.written
    rw [Nested.owed, Nested.pending, hphase, hnest, List.append_nil] at hstate
    rw [hholds.outline]
    exact hstate
  rw [prepare_eq] at hmode hwritten
  split at hwritten
  · exact .inr hwritten.symm
  · next hpoint =>
    -- the point was added, so it is the last glyph
    rw [if_neg hpoint, plainBreaks_concat_point, List.foldl_append] at hmode
    rw [plainBreaks_concat_point, List.foldl_append] at hwritten
    have hlast := Scan.written_next_point hmode
    exact .inl (List.append_cancel_right (hwritten.symm.trans hlast))

/-! ## Soundness -/

/-- A tree that was read is well formed, and without blanks it is its text: nothing of the text is
lost and nothing is added to it. -/
theorem Tree.read_sound (h : Tree.read source ops filename = .ok tree)
    (hops : ∀ op ∈ ops, '"' ∉ op.toList) :
    tree.WellFormed ops ∧ (tree.outline.bare = bareSource source ∨
      tree.outline.bare ++ [.char '.'] = bareSource source) :=
  ⟨Tree.wellFormed_of_read h, Tree.bare_eq h hops⟩

def callSource : String := "#a \x7b b = f(-1.5, \"x y\") + c; \x7d // end"

theorem Tree.read_sound_call : (∀ op ∈ defaultOperators, '"' ∉ op.toList) ∧
    ∃ tree, Tree.read callSource defaultOperators none = .ok tree ∧
      tree.WellFormed defaultOperators ∧ (tree.outline.bare = bareSource callSource ∨
        tree.outline.bare ++ [.char '.'] = bareSource callSource) := by
  obtain ⟨tree, h, -⟩ : ∃ tree, Tree.read callSource defaultOperators none = .ok tree ∧ true :=
    Tree.exists_of_any (p := fun _ => true) (by decide +kernel)
  exact ⟨by decide, tree, h, Tree.read_sound h (by decide)⟩

end Formulary

import Formulary.Proofs.Reader.Relocation
import Formulary.Proofs.Reader.Soundness

/-!
# What a tree does not depend on

A text is read as the same text without its comments, and as the same text with other line breaks.
Only the text that the tree keeps differs, and the offsets where the other breaks are longer.

* `Tree.read_strip`: comments that have been blanked already.
* `Tree.read_withBreaks`: carriage returns, alone or before line feeds, in place of line feeds.
-/

namespace Formulary

variable {source : String} {ops : List String} {filename : Option String}

/-! ## The same offsets -/

def Relocation.same (source : String) : Relocation := ⟨source, id, rfl⟩

namespace Relocation

theorem tree_same (t : Tree) : (same source).tree t = { t with source } := by
  have hentities : t.entities.map (same source).entity = t.entities :=
    Array.map_id t.entities
  have helements : t.elements.map (same source).element = t.elements :=
    Array.map_id t.elements
  rw [tree, hentities, helements]
  rfl

theorem result_same (x : Except ParseError Tree) :
    (same source).result (same source).tree x = x.map fun t => { t with source } := by
  cases x with
  | ok t => exact congrArg Except.ok (tree_same t)
  | error e => rfl

end Relocation

/-- Texts that are prepared alike are read alike. -/
theorem Tree.read_of_prepare {source' : String} (h : prepare source' = prepare source) :
    read source' ops filename =
      (read source ops filename).map fun t => { t with source := source' } := by
  have hrun := (Relocation.same source').run_reader
    (r := Reader.initial ops filename source) (fun _ => rfl) (prepare source).2 (prepare source).1
  rw [Relocation.initial_reader, Relocation.result_same] at hrun
  rw [read_eq, read_eq, h]
  exact hrun

/-- Blanking the comments of a text once more changes nothing, and a text is read as the same text
with its comments blanked. -/
theorem Tree.read_strip (source : String) :
    Comment.strip (Comment.strip source) = Comment.strip source ∧
      ∀ (ops : List String) (filename : Option String),
        read (Comment.strip source) ops filename =
          (read source ops filename).map fun t => { t with source := Comment.strip source } :=
  ⟨Comment.strip_strip source, fun _ _ => read_of_prepare (prepare_strip source)⟩

/-! ## Longer line breaks -/

/-- The text with a carriage return before each line feed, and where its characters stand in it: an
offset grows by the number of line feeds before it. -/
def Relocation.pairs (source : String) : Relocation :=
  ⟨withBreaks ['\r', '\n'] source, pairOffset source.toList, rfl⟩

theorem Relocation.pairs_succ (hreturn : '\r' ∉ source.toList) {n : Nat} {c : Char}
    (hc : (prepare source).1[n]? = some c) : (pairs source).offset (n + 1) =
      (pairs source).offset n + if c = '\n' then 2 else 1 := by
  show pairOffset source.toList (n + 1) = pairOffset source.toList n + _
  rw [← pairOffset_prepare hreturn, ← pairOffset_prepare hreturn, pairOffset_succ hc]

/-- A text without carriage returns is read as the same text with other line breaks.  With carriage
returns in place of its line feeds only the text that is kept differs.  With carriage returns before
them, if no line feed is read inside a string, the tree has the same nodes on the same lines and
columns, each at its offset and as many characters further as there are line feeds before it, and
an error is the same error at the offset so moved. -/
theorem Tree.read_withBreaks (hreturn : '\r' ∉ source.toList) (ops : List String)
    (filename : Option String) :
    read (withBreaks ['\r'] source) ops filename = (read source ops filename).map
        (fun t => { t with source := withBreaks ['\r'] source }) ∧
      ((Reader.initial ops filename source).Unbroken (prepare source).1 →
        read (withBreaks ['\r', '\n'] source) ops filename =
          (Relocation.pairs source).result (Relocation.pairs source).tree
            (read source ops filename)) := by
  refine ⟨read_of_prepare (prepare_returns hreturn), fun hwhole => ?_⟩
  have hrun := (Relocation.pairs source).run_rebreak .start (prepare source).1 hwhole
    (fun n c hc => ?_) (prepare source).2
  · rw [Relocation.initial_reader] at hrun
    rw [read_eq, read_eq, prepare_pairs hreturn]
    exact hrun
  · have hstart : (Reader.initial ops filename source).cursor.offset + n = n := Nat.zero_add n
    rw [hstart]
    exact Relocation.pairs_succ hreturn hc

/-- A text of several lines with a string, a comment on two lines and a call. -/
def feedSource : String := "#a \x7b\n b = f(-1.5,\n \"x y\"); /* c\n */\n d = []; // e\n\x7d\n"

theorem Tree.read_withBreaks_feed : '\r' ∉ feedSource.toList ∧
    (Reader.initial defaultOperators none feedSource).Unbroken (prepare feedSource).1 ∧
    ∃ tree, read feedSource defaultOperators none = .ok tree ∧
      (tree.entity 2).position = ⟨41, 5, 6⟩ ∧
      read (withBreaks ['\r'] feedSource) defaultOperators none =
        .ok { tree with source := withBreaks ['\r'] feedSource } ∧
      read (withBreaks ['\r', '\n'] feedSource) defaultOperators none =
        .ok ((Relocation.pairs feedSource).tree tree) ∧
      ((Relocation.pairs feedSource).tree tree).entity 2 =
        { tree.entity 2 with position := ⟨45, 5, 6⟩ } := by
  have hreturn : '\r' ∉ feedSource.toList := by decide +kernel
  have hwhole : (Reader.initial defaultOperators none feedSource).Unbroken
    (prepare feedSource).1 := by decide +kernel
  obtain ⟨hsame, hpairs⟩ := read_withBreaks hreturn defaultOperators none
  obtain ⟨tree, h, hposition⟩ : ∃ tree, read feedSource defaultOperators none = .ok tree ∧
      decide ((tree.entity 2).position = ⟨41, 5, 6⟩) :=
    exists_of_any (p := fun tree => decide ((tree.entity 2).position = ⟨41, 5, 6⟩))
      (by decide +kernel)
  have hposition : (tree.entity 2).position = ⟨41, 5, 6⟩ := by simpa using hposition
  have hmoved : (Relocation.pairs feedSource).position ⟨41, 5, 6⟩ = ⟨45, 5, 6⟩ := by
    decide +kernel
  refine ⟨hreturn, hwhole, tree, h, hposition, ?_, ?_, ?_⟩
  · rw [hsame, h]
    rfl
  · rw [hpairs hwhole, h]
    rfl
  · rw [Relocation.entity_tree, Relocation.entity, hposition, hmoved]

end Formulary

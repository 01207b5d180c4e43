import Formulary.Proofs.Reader.Strings
import Formulary.Proofs.Reader.Trace
import Formulary.Proofs.Text.Quoting

/-!
# Strings of a reading and comments of the text

A reading with operators that contain no quotes is in a string exactly where the blanking of
comments is in one, at the same offset of the text.

* `Nested.foldl_follow`: the glyphs of a text and its strings.
* `Reader.Reaches.literal`: the phase of a reading and the mode of the blanking.
* `Reader.Reaches.string_iff`: strings are at the same places, and are spared by the blanking.
-/

namespace Formulary

/-- How far a string has been read. -/
def ScanMode.literal : ScanMode → Literal
  | .outside => .closed
  | .inside _ => .inside
  | .escaped _ => .escaped

theorem Phase.eq_string_iff {p : Phase} : p = .string ↔ p.literal = .inside := by
  cases p <;> decide

theorem Phase.eq_stringEscape_iff {p : Phase} : p = .stringEscape ↔ p.literal = .escaped := by
  cases p <;> decide

namespace Nested

theorem literal_next (scan : Scan) (c : Char) :
    (scan.next c).mode.literal = scan.mode.literal.follow c := by
  obtain ⟨written, mode⟩ := scan
  cases mode with
  | outside => grind [Scan.next, ScanMode.literal, Literal.follow]
  | inside text => grind [Scan.next, ScanMode.literal, Literal.follow, Literal.next]
  | escaped text => rfl

/-- The reading of glyphs follows the strings of a text. -/
theorem foldl_follow (scan : Scan) (cs : List Char) :
    (cs.foldl Scan.next scan).mode.literal = cs.foldl Literal.follow scan.mode.literal := by
  induction cs generalizing scan with
  | nil => rfl
  | cons c cs ih => rw [List.foldl_cons, ih, literal_next, List.foldl_cons]

theorem literal_scanMode (s : Nested) : s.scanMode.literal = s.phase.literal := by
  obtain ⟨p, nest, b, token, name⟩ := s
  cases p <;> rfl

end Nested

namespace Reader

variable {source : String} {ops : List String} {filename : Option String} {r r' : Reader}
  {pre : List Char} {c : Char}

/-- Where operators contain no quotes, a reading follows the strings of the text. -/
theorem Reaches.literal (h : (Reader.initial ops filename source).Reaches pre r)
    (hops : ∀ op ∈ ops, '"' ∉ op.toList) (hpre : pre <+: (prepare source).1)
    (hn : pre.length ≤ source.toList.length) :
    r.phase.literal = (Comment.modeAt source.toList pre.length).literal := by
  have hcs : ∀ c ∈ pre, c ≠ '\r' := fun c hc => prepare_ne source c (hpre.subset hc)
  obtain ⟨s, hread, -, hmirrors⟩ := h.mirrors hcs
  have htraced := Nested.traced_initial.read hops Nested.staged_initial hcs hread
  calc r.phase.literal = s.scanMode.literal := by rw [s.literal_scanMode, hmirrors.phase]
    _ = pre.foldl Literal.follow .closed := by
      rw [← htraced.mode, Nested.foldl_follow]
      rfl
    _ = (Comment.modeAt source.toList pre.length).literal := by
      rw [← Comment.literal_prepare hn, ← List.prefix_iff_eq_take.mp hpre]

/-- Where operators contain no quotes, a reading is in a string, or behind a backslash in one,
exactly where the blanking of comments is at the same offset of the text.  A character that is read
in a string, or opens one, belongs to no comment and is not blanked. -/
theorem Reaches.string_iff (h : (Reader.initial ops filename source).Reaches pre r)
    (hops : ∀ op ∈ ops, '"' ∉ op.toList) (hpre : pre <+: (prepare source).1)
    (hn : pre.length ≤ source.toList.length) :
    (r.phase = .string ↔ Comment.modeAt source.toList pre.length = .quoted) ∧
      (r.phase = .stringEscape ↔ Comment.modeAt source.toList pre.length = .escaped) ∧
      ∀ c, pre ++ [c] <+: (prepare source).1 → pre.length < source.toList.length →
        (r.phase.inString ∨ ∃ r', r.accept c = .ok r' ∧ r'.phase.inString) →
        Comment.Spares source pre.length := by
  have hliteral := h.literal hops hpre hn
  refine ⟨?_, ?_, fun c hc hlt hstring => ?_⟩
  · rw [Phase.eq_string_iff, hliteral, Comment.Mode.eq_quoted_iff]
  · rw [Phase.eq_stringEscape_iff, hliteral, Comment.Mode.eq_escaped_iff]
  · have hcovers : ¬ Comment.Covers source.toList pre.length := by
      intro hcovers
      obtain ⟨hbefore, hafter⟩ := hcovers.literal (List.getElem?_eq_getElem hlt)
      rcases hstring with hstring | ⟨r', hr', hstring⟩
      · rw [Phase.inString_iff, hliteral] at hstring
        exact hstring hbefore
      · have hnext := (h.next hr').literal hops hc (by rw [List.length_append]; exact hlt)
        rw [Phase.inString_iff, hnext, List.length_append] at hstring
        exact hstring hafter
    exact ⟨hcovers, Comment.getElem?_strip hcovers⟩

/-- A text with a comment opener in a string and a quote in a comment. -/
def quotedSource : String := "#a \x7b b = \"// \\\" /*\"; /* \" */ \x7d"

theorem Reaches.string_iff_quoted : (∀ op ∈ defaultOperators, '"' ∉ op.toList) ∧
    ∃ r, (Reader.initial defaultOperators none quotedSource).Reaches
        ((prepare quotedSource).1.take 11) r ∧
      (prepare quotedSource).1.take 11 <+: (prepare quotedSource).1 ∧
      11 ≤ quotedSource.toList.length ∧ quotedSource.toList[11]? = some '/' ∧ r.phase = .string ∧
      Comment.modeAt quotedSource.toList 11 = .quoted ∧ Comment.Spares quotedSource 11 := by
  have hops : ∀ op ∈ defaultOperators, '"' ∉ op.toList := by decide +kernel
  have hpre : (prepare quotedSource).1.take 11 <+: (prepare quotedSource).1 := List.take_prefix ..
  have hlength : ((prepare quotedSource).1.take 11).length = 11 := by decide +kernel
  obtain ⟨r, hr, hphase⟩ : ∃ r, (Reader.initial defaultOperators none quotedSource).Reaches
      ((prepare quotedSource).1.take 11) r ∧ decide (r.phase = .string) :=
    exists_reaches_of_any (p := fun r => decide (r.phase = .string)) (by decide +kernel)
  have hphase : r.phase = .string := by simpa using hphase
  obtain ⟨hquoted, -, hspares⟩ := hr.string_iff hops hpre (by decide +kernel)
  rw [hlength] at hquoted hspares
  refine ⟨hops, r, hr, hpre, by decide +kernel, by decide +kernel, hphase, hquoted.mp hphase,
    hspares '/' (by decide +kernel) (by decide +kernel) (.inl ?_)⟩
  rw [hphase]
  rfl

end Reader

end Formulary

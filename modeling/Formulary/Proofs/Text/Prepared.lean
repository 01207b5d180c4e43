import Mathlib.Data.List.Forall2
import Formulary.Proofs.Document.Words
import Formulary.Proofs.Text.Basic

/-!
# The prepared text against the text itself

What the preparation of a text changes: characters of comments become blanks, line breaks become
line feeds, and a point may be added.  All else stays at its offset.

* `Comment.Blanked`, `Comment.forall₂_strip`: a text and the same text without its comments.
* `getElem?_prepare`: a character that is read and is no blank is the character of the text.
* `Position.ofOffset_prepare`: lines and columns are those of the text.
* `prefix_of_prepare`: a word that is read stands in the text.
-/

namespace Formulary

/-! ## Comments -/

namespace Comment

/-- A character of a text and what stands for it once comments are blanked. -/
def Blanked (c d : Char) : Prop := d = c ∨ d = blank c

variable {c d : Char}

theorem Blanked.refl (c : Char) : Blanked c c := .inl rfl

theorem Blanked.eq_of_not_blank (h : Blanked c d) (hd : isBlank d = false) : d = c := by
  rcases h with h | rfl
  · exact h
  · rw [isBlank_blank] at hd
    cases hd

theorem Blanked.eq_break_iff (h : Blanked c d) {b : Char} (hb : isBreak b) : d = b ↔ c = b := by
  rcases h with rfl | rfl
  · exact Iff.rfl
  · rw [blank]
    split
    · exact Iff.rfl
    · next hc =>
      constructor
      · rintro rfl
        exact absurd hb (by decide)
      · rintro rfl
        exact absurd hb hc

theorem next_eq_slash_iff {m : Mode} : m.next c = .slash ↔ m = .plain ∧ c = '/' := by
  cases m <;> grind [Mode.next, Mode.afterPlain]

theorem close_of_ne {m : Mode} (h : m ≠ .slash) : m.close = [] := by
  cases m <;> first | rfl | exact absurd rfl h

/-- A slash that waits is the first character of what is still to be written. -/
theorem forall₂_stripFrom (m : Mode) (cs : List Char) :
    List.Forall₂ Blanked (m.close ++ cs) (stripFrom m cs) := by
  induction cs generalizing m with
  | nil =>
    rw [List.append_nil]
    exact List.forall₂_same.mpr fun c _ => .refl c
  | cons c cs ih =>
    have hnext := ih (m.next c)
    by_cases hwait : m = .plain ∧ c = '/'
    · obtain ⟨rfl, rfl⟩ := hwait
      exact hnext
    -- only a slash in plain text waits for the next character
    rw [close_of_ne (mt next_eq_slash_iff.mp hwait)] at hnext
    cases m with
    | plain =>
      have hc : c ≠ '/' := fun hc => hwait ⟨rfl, hc⟩
      simpa [stripFrom, Mode.emit, Mode.close, hc] using ⟨Blanked.refl c, hnext⟩
    | slash =>
      by_cases hopen : c = '/' ∨ c = '*'
      · have hslash : Blanked '/' ' ' := .inr rfl
        have hc : Blanked c ' ' := by rcases hopen with rfl | rfl <;> exact .inr rfl
        simpa [stripFrom, Mode.emit, Mode.close, hopen] using ⟨hslash, hc, hnext⟩
      · simpa [stripFrom, Mode.emit, Mode.close, hopen] using
          ⟨Blanked.refl '/', Blanked.refl c, hnext⟩
    | line | block | star => exact .cons (.inr rfl) hnext
    | quoted | escaped => exact .cons (.refl c) hnext

/-- The blanking of comments leaves every other character where it is. -/
theorem forall₂_strip (source : String) :
    List.Forall₂ Blanked source.toList (strip source).toList := by
  rw [toList_strip]
  exact forall₂_stripFrom .plain source.toList

theorem length_strip (source : String) :
    (strip source).toList.length = source.toList.length := (forall₂_strip source).length_eq.symm

variable {cs ds : List Char}

/-- A word without blanks stands where it stood. -/
theorem prefix_of_blanked (h : List.Forall₂ Blanked cs ds) {w : List Char} (hw : w <+: ds)
    (hblank : ∀ c ∈ w, isBlank c = false) : w <+: cs := by
  induction h generalizing w with
  | nil => exact hw
  | @cons c d cs ds hcd _ ih =>
    cases w with
    | nil => exact List.nil_prefix
    | cons a w =>
      rw [List.cons_prefix_cons] at hw
      obtain ⟨rfl, hw⟩ := hw
      rw [List.forall_mem_cons] at hblank
      rw [List.cons_prefix_cons]
      exact ⟨hcd.eq_of_not_blank hblank.1, ih hw hblank.2⟩

/-- Line breaks are where they were. -/
theorem head?_blanked (h : List.Forall₂ Blanked cs ds) {b : Char} (hb : isBreak b) :
    ds.head? = some b ↔ cs.head? = some b := by
  cases h with
  | nil => exact Iff.rfl
  | cons hcd _ =>
    rw [List.head?_cons, List.head?_cons, Option.some.injEq, Option.some.injEq]
    exact hcd.eq_break_iff hb

theorem getElem?_blanked (h : List.Forall₂ Blanked cs ds) (i : Nat) {b : Char} (hb : isBreak b) :
    ds[i]? = some b ↔ cs[i]? = some b := by
  rw [← List.head?_drop, ← List.head?_drop]
  exact head?_blanked (List.forall₂_drop i h) hb

/-- Lines end where they did. -/
theorem endsLine_blanked (h : List.Forall₂ Blanked cs ds) : endsLine ds = endsLine cs := by
  cases h with
  | nil => rfl
  | @cons c d cs ds hcd h =>
    have hfeed : d = '\n' ↔ c = '\n' := hcd.eq_break_iff rfl
    have hreturn : d = '\r' ↔ c = '\r' := hcd.eq_break_iff rfl
    have hnext : ds.head? = some '\n' ↔ cs.head? = some '\n' := head?_blanked h rfl
    rw [Bool.eq_iff_iff]
    simp [endsLine, hfeed, hreturn, hnext]

end Comment

/-! ## Line breaks -/

theorem length_plainBreaks (cs : List Char) : (plainBreaks cs).length = cs.length := by
  induction cs with
  | nil => rfl
  | cons c cs ih => rw [plainBreaks_cons, List.length_cons, ih, List.length_cons]

theorem drop_plainBreaks (cs : List Char) (n : Nat) :
    (plainBreaks cs).drop n = plainBreaks (cs.drop n) := by
  induction cs generalizing n with
  | nil => simp [plainBreaks]
  | cons c cs ih =>
    cases n with
    | zero => rfl
    | succ n => rw [plainBreaks_cons, List.drop_succ_cons, ih, List.drop_succ_cons]

/-- Lines end where they did. -/
theorem endsLine_plainBreaks (cs : List Char) : endsLine (plainBreaks cs) = endsLine cs := by
  cases cs with
  | nil => rfl
  | cons c cs =>
    rw [plainBreaks_cons, plainBreak]
    by_cases hc : c = '\r'
    · cases cs with
      | nil => simp [endsLine, hc]
      | cons d ds => by_cases hd : d = '\n' <;> simp [endsLine, hc, hd]
    · simp [endsLine, hc]

/-- A word without blanks is left alone. -/
theorem prefix_of_plainBreaks {w cs : List Char} (h : w <+: plainBreaks cs)
    (hw : ∀ c ∈ w, isBlank c = false) : w <+: cs := by
  induction w generalizing cs with
  | nil => exact List.nil_prefix
  | cons a w ih =>
    rw [List.forall_mem_cons] at hw
    cases cs with
    | nil => exact absurd (List.prefix_nil.mp h) (by simp)
    | cons c cs =>
      rw [plainBreaks_cons, List.cons_prefix_cons] at h
      obtain ⟨ha, htail⟩ := h
      rw [plainBreak] at ha
      split at ha
      · -- a break would be a blank
        subst ha
        have hblank := hw.1
        split at hblank <;> cases hblank
      · rw [ha, List.cons_prefix_cons]
        exact ⟨rfl, ih htail hw.2⟩

/-! ## Preparation -/

def addedPoint (source : String) : List Char := if (prepare source).2 then ['.'] else []

theorem prepare_append (source : String) : (prepare source).1 =
    plainBreaks ((Comment.strip source).toList ++ addedPoint source) := by
  rw [addedPoint, prepare]
  split
  · simp
  · rfl

variable {source : String} {n : Nat}

theorem length_prepare (source : String) :
    (prepare source).1.length = source.toList.length + (addedPoint source).length := by
  rw [prepare_append, length_plainBreaks, List.length_append, Comment.length_strip]

theorem addedPoint_cases (source : String) :
    addedPoint source = ['.'] ∨ addedPoint source = [] := by
  rw [addedPoint]
  split
  · exact .inl rfl
  · exact .inr rfl

theorem added_eq_true_iff : (prepare source).2 = true ↔ addedPoint source = ['.'] := by
  rw [addedPoint]
  split
  · next h => simp [h]
  · next h => simp [h]

theorem length_addedPoint_le (source : String) : (addedPoint source).length ≤ 1 := by
  rcases addedPoint_cases source with h | h <;> simp [h]

/-- What is read after the end of the text is the point that was added. -/
theorem getElem?_prepare_length (source : String) :
    (prepare source).1[source.toList.length]? = (addedPoint source).head? := by
  rw [← List.head?_drop, prepare_append, drop_plainBreaks, ← Comment.length_strip source,
    List.drop_left]
  rcases addedPoint_cases source with h | h <;> rw [h] <;> rfl

/-- A character that is read is at an offset of the text, or it is the point that was added. -/
theorem lt_or_added {c : Char} (h : (prepare source).1[n]? = some c) : n < source.toList.length ∨
    n = source.toList.length ∧ addedPoint source = ['.'] ∧ c = '.' := by
  have hlt := (List.getElem?_eq_some_iff.mp h).1
  have hadded := length_addedPoint_le source
  rw [length_prepare] at hlt
  rcases Nat.lt_or_eq_of_le (show n ≤ source.toList.length by omega) with hn | rfl
  · exact .inl hn
  · rw [getElem?_prepare_length] at h
    rcases addedPoint_cases source with hpoint | hpoint
    · rw [hpoint] at h
      exact .inr ⟨rfl, hpoint, (Option.some.inj h).symm⟩
    · rw [hpoint] at h
      cases h

theorem endsLine_append_point (h : n < source.toList.length) :
    endsLine (((Comment.strip source).toList ++ addedPoint source).drop n) =
      endsLine ((Comment.strip source).toList.drop n) := by
  rw [List.drop_append_of_le_length (by rw [Comment.length_strip]; omega), addedPoint]
  split
  · have hne : (Comment.strip source).toList.drop n ≠ [] := by
      rw [Ne, List.drop_eq_nil_iff, Comment.length_strip]
      omega
    obtain ⟨c, cs, hcs⟩ := List.exists_cons_of_ne_nil hne
    rw [hcs]
    cases cs <;> rfl
  · rw [List.append_nil]

theorem endsLine_prepare (h : n < source.toList.length) :
    endsLine ((prepare source).1.drop n) = endsLine (source.toList.drop n) := by
  rw [prepare_append, drop_plainBreaks, endsLine_plainBreaks, endsLine_append_point h]
  exact Comment.endsLine_blanked (List.forall₂_drop n (Comment.forall₂_strip source))

/-- Lines and columns of the prepared text are those of the text. -/
theorem Position.ofOffset_prepare (h : n ≤ source.toList.length) :
    Position.ofOffset (prepare source).1 n = Position.ofOffset source.toList n :=
  Position.ofOffset_congr fun _ hi => endsLine_prepare (by omega)

/-- A word without blanks that is read stands in the text. -/
theorem prefix_of_prepare {w : List Char} (h : w <+: (prepare source).1.drop n)
    (hw : ∀ c ∈ w, isBlank c = false) (hn : n + w.length ≤ source.toList.length) :
    w <+: source.toList.drop n := by
  rw [prepare_append, drop_plainBreaks,
    List.drop_append_of_le_length (by rw [Comment.length_strip]; omega)] at h
  have hstrip : w <+: (Comment.strip source).toList.drop n := by
    refine List.prefix_of_prefix_length_le (prefix_of_plainBreaks h hw) (List.prefix_append _ _) ?_
    rw [List.length_drop, Comment.length_strip]
    omega
  exact Comment.prefix_of_blanked (List.forall₂_drop n (Comment.forall₂_strip source)) hstrip hw

end Formulary

import Formulary.Document.Writing
import Formulary.Text.Comment

/-!
# Blanked comments

The blanking of comments, from any mode on and over a list of characters.  Words and quoted strings
stay, fillers become blanks.

* `Comment.stripFrom`, `Comment.toList_strip`: the blanking as a recursion.
* `Comment.stripFrom_plain`, `Comment.stripFrom_quoted`: words and strings.
* `Filler.strip`, `Gap.strip`: fillers and gaps.
-/

namespace Formulary

def Blanks (cs : List Char) : Prop := ∀ c ∈ cs, isBlank c

theorem Blanks.nil : Blanks [] := by simp [Blanks]

theorem Blanks.cons {c : Char} {cs : List Char} (hc : isBlank c) (h : Blanks cs) :
    Blanks (c :: cs) := by
  simp only [Blanks, List.forall_mem_cons]
  exact ⟨hc, h⟩

theorem Blanks.append {cs ds : List Char} (h : Blanks cs) (h' : Blanks ds) : Blanks (cs ++ ds) := by
  intro c hc
  rcases List.mem_append.mp hc with hc | hc
  · exact h c hc
  · exact h' c hc

namespace Comment

def stripFrom : Mode → List Char → List Char
  | m, [] => m.close
  | m, c :: cs => m.emit c ++ stripFrom (m.next c) cs

theorem toList_foldl_push (cs : List Char) (s : String) :
    (cs.foldl String.push s).toList = s.toList ++ cs := by
  induction cs generalizing s with
  | nil => simp
  | cons c cs ih => rw [List.foldl_cons, ih, String.toList_push, List.append_assoc]; rfl

theorem toList_strip (text : String) : (strip text).toList = stripFrom .plain text.toList := by
  have hfold : ∀ (cs : List Char) (r : Reading),
      (cs.foldl Reading.next r).close.toList = r.written.toList ++ stripFrom r.mode cs := by
    intro cs
    induction cs with
    | nil => intro r; exact toList_foldl_push _ _
    | cons c cs ih =>
      intro r
      rw [List.foldl_cons, ih, Reading.next, toList_foldl_push, stripFrom, List.append_assoc]
  rw [strip, hfold]
  rfl

theorem isBlank_of_isBreak {c : Char} (h : isBreak c) : isBlank c := by
  simp only [isBreak, Bool.or_eq_true, decide_eq_true_eq] at h
  rcases h with rfl | rfl <;> decide

theorem isBlank_blank (c : Char) : isBlank (blank c) := by
  rw [blank]
  split
  · next h => exact isBlank_of_isBreak h
  · decide

variable {cs : List Char} (rest : List Char)

/-! ## Words -/

theorem stripFrom_plain (h : ∀ c ∈ cs, c ≠ '/' ∧ c ≠ '"') :
    stripFrom .plain (cs ++ rest) = cs ++ stripFrom .plain rest := by
  induction cs with
  | nil => rfl
  | cons c cs ih =>
    rw [List.forall_mem_cons] at h
    simp only [List.cons_append, stripFrom, Mode.emit, Mode.next, Mode.afterPlain, h.1.1, h.1.2,
      if_false, ih h.2, List.nil_append]

/-- A slash before what opens no comment. -/
theorem stripFrom_slash {c : Char} (h : c ≠ '/' ∧ c ≠ '*' ∧ c ≠ '"') :
    stripFrom .plain ('/' :: c :: rest) = '/' :: c :: stripFrom .plain rest := by
  simp [stripFrom, Mode.emit, Mode.next, Mode.afterPlain, h]

theorem stripFrom_quoted {text spelled : List Char} (h : SpelledChars text spelled) :
    stripFrom .quoted (spelled ++ '"' :: rest) = spelled ++ '"' :: stripFrom .plain rest := by
  induction h with
  | nil => simp [stripFrom, Mode.emit, Mode.next]
  | cons hc _ ih =>
    rw [List.append_assoc, List.append_assoc, ← ih]
    cases hc with
    | quote => simp [stripFrom, Mode.emit, Mode.next]
    | backslash => simp [stripFrom, Mode.emit, Mode.next]
    | tab => simp [stripFrom, Mode.emit, Mode.next]
    | plain h₁ h₂ => simp [stripFrom, Mode.emit, Mode.next, h₁, h₂]

/-! ## Fillers -/

theorem blanks_map_blank (cs : List Char) : Blanks (cs.map blank) := by
  intro c hc
  obtain ⟨d, -, rfl⟩ := List.mem_map.mp hc
  exact isBlank_blank d

variable {text : List Char}

theorem stripFrom_line (h : ∀ c ∈ text, isBreak c = false) :
    stripFrom .line (text ++ rest) = text.map blank ++ stripFrom .line rest := by
  induction text with
  | nil => rfl
  | cons c text ih =>
    rw [List.forall_mem_cons] at h
    simp [stripFrom, Mode.emit, Mode.next, h.1, ih h.2]

/-- The break that ends a line comment stays. -/
theorem stripFrom_line_break {brk : Char} (hb : isBreak brk) :
    stripFrom .line (brk :: rest) = brk :: stripFrom .plain rest := by
  simp [stripFrom, Mode.emit, Mode.next, blank, hb]

/-- A block comment goes on; after a star the next slash would close it. -/
theorem stripFrom_block (h : ¬ ['*', '/'] <:+: text) {m : Mode}
    (hm : m = .block ∨ m = .star ∧ text.head? ≠ some '/') : ∃ m', (m' = .block ∨ m' = .star) ∧
      ∀ rest, stripFrom m (text ++ rest) = text.map blank ++ stripFrom m' rest := by
  induction text generalizing m with
  | nil => exact ⟨m, hm.imp_right And.left, fun _ => rfl⟩
  | cons c text ih =>
    have htext : ¬ ['*', '/'] <:+: text := fun hinside => h (hinside.trans ⟨[c], [], by simp⟩)
    have hstar : c = '*' → text.head? ≠ some '/' := by
      rintro rfl hhead
      obtain ⟨text, rfl⟩ := List.head?_eq_some_iff.mp hhead
      exact h ⟨[], text, rfl⟩
    by_cases hc : c = '*'
    · obtain ⟨m', hm', hstrip⟩ := ih htext (.inr ⟨rfl, hstar hc⟩)
      refine ⟨m', hm', fun rest => ?_⟩
      rcases hm with rfl | ⟨rfl, -⟩ <;> simp [stripFrom, Mode.emit, Mode.next, hc, hstrip]
    · obtain ⟨m', hm', hstrip⟩ := ih htext (.inl rfl)
      refine ⟨m', hm', fun rest => ?_⟩
      rcases hm with rfl | ⟨rfl, hhead⟩
      · simp [stripFrom, Mode.emit, Mode.next, hc, hstrip]
      · have hslash : c ≠ '/' := by simpa using hhead
        simp [stripFrom, Mode.emit, Mode.next, hc, hslash, hstrip]

/-- A block comment through its end. -/
theorem stripFrom_block_close (h : ¬ ['*', '/'] <:+: text) :
    stripFrom .block (text ++ '*' :: '/' :: rest) =
      (text ++ ['*', '/']).map blank ++ stripFrom .plain rest := by
  obtain ⟨m', hm', hstrip⟩ := stripFrom_block h (.inl rfl)
  rw [hstrip, List.map_append, List.append_assoc]
  rcases hm' with rfl | rfl <;> simp [stripFrom, Mode.emit, Mode.next]

end Comment

theorem LineComment.strip {cs : List Char} (h : LineComment cs) (rest : List Char) :
    ∃ bs, Blanks bs ∧ Comment.stripFrom .plain (cs ++ rest) =
      bs ++ Comment.stripFrom .plain rest := by
  obtain @⟨text, brk, htext, hb⟩ := h
  have hbreak : Comment.isBreak brk := by rcases hb with rfl | rfl <;> rfl
  have hplain : ∀ c ∈ text, Comment.isBreak c = false := fun c hc => by
    simpa [Comment.isBreak] using htext c hc
  have hline := Comment.stripFrom_line (brk :: rest) hplain
  rw [Comment.stripFrom_line_break rest hbreak] at hline
  refine ⟨' ' :: ' ' :: (text ++ [brk]).map Comment.blank,
    .cons rfl (.cons rfl (Comment.blanks_map_blank _)), ?_⟩
  simp [Comment.stripFrom, Comment.Mode.emit, Comment.Mode.next, Comment.Mode.afterPlain, hline,
    Comment.blank, hbreak]

theorem BlockComment.strip {cs : List Char} (h : BlockComment cs) (rest : List Char) :
    ∃ bs, Blanks bs ∧ Comment.stripFrom .plain (cs ++ rest) =
      bs ++ Comment.stripFrom .plain rest := by
  obtain @⟨text, htext⟩ := h
  have hblock := Comment.stripFrom_block_close rest htext
  refine ⟨' ' :: ' ' :: (text ++ ['*', '/']).map Comment.blank,
    .cons rfl (.cons rfl (Comment.blanks_map_blank _)), ?_⟩
  simp [Comment.stripFrom, Comment.Mode.emit, Comment.Mode.next, Comment.Mode.afterPlain, hblock]

theorem isBlank_ne {c : Char} (h : isBlank c) : c ≠ '/' ∧ c ≠ '*' ∧ c ≠ '"' := by
  simp only [isBlank, Bool.or_eq_true, decide_eq_true_eq] at h
  rcases h with ((rfl | rfl) | rfl) | rfl <;> decide

/-- A filler becomes blanks. -/
theorem Filler.strip {cs : List Char} (h : Filler cs) (rest : List Char) :
    ∃ bs, Blanks bs ∧ Comment.stripFrom .plain (cs ++ rest) =
      bs ++ Comment.stripFrom .plain rest := by
  induction h with
  | nil => exact ⟨[], .nil, rfl⟩
  | @blank c cs hc _ ih =>
    obtain ⟨bs, hbs, hstrip⟩ := ih
    refine ⟨c :: bs, .cons hc hbs, ?_⟩
    have hne := isBlank_ne hc
    rw [List.cons_append, List.cons_append, ← hstrip]
    exact Comment.stripFrom_plain (cs ++ rest) (by simp [hne] : ∀ b ∈ [c], _)
  | @comment text cs htext _ ih =>
    obtain ⟨bs, hbs, hstrip⟩ := ih
    obtain ⟨bs', hbs', hstrip'⟩ : ∃ bs', Blanks bs' ∧ Comment.stripFrom .plain
        (text ++ (cs ++ rest)) = bs' ++ Comment.stripFrom .plain (cs ++ rest) := by
      rcases htext with h | h
      · exact h.strip _
      · exact h.strip _
    refine ⟨bs' ++ bs, hbs'.append hbs, ?_⟩
    rw [List.append_assoc, hstrip', hstrip, List.append_assoc]

theorem Filler.strip_end {cs : List Char} (h : Filler cs) :
    Blanks (Comment.stripFrom .plain cs) := by
  obtain ⟨bs, hbs, hstrip⟩ := h.strip []
  rw [List.append_nil] at hstrip
  rw [hstrip]
  exact hbs.append .nil

end Formulary

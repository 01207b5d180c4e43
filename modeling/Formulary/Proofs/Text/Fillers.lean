import Formulary.Proofs.Text.Prepared

/-!
# What blanks stand for

Blanks of the prepared text stand for a filler of the text: the blanks and the comments between two
of its words.

* `Comment.Closes`: the rest of a comment from a mode on.
* `Comment.filler_of_stripFrom`: blanks that are read in plain text were a filler.
* `Comment.stripFrom_append`: the blanking of a text part by part.
* `exists_filler`: the same of the prepared text, after a minus.
-/

namespace Formulary

theorem Blanks.of_cons {b : Char} {bs : List Char} (h : Blanks (b :: bs)) :
    isBlank b ∧ Blanks bs := List.forall_mem_cons.mp h

namespace Comment

/-! ## The rest of a comment -/

/-- The rest of a comment after what a mode says of it. -/
inductive Closes : Mode → List Char → Prop where
  | plain : Closes .plain []
  | slash {cs : List Char} : LineComment ('/' :: cs) ∨ BlockComment ('/' :: cs) → Closes .slash cs
  | line {text : List Char} {brk : Char} : (∀ c ∈ text, c ≠ '\n' ∧ c ≠ '\r') →
      brk = '\n' ∨ brk = '\r' → Closes .line (text ++ [brk])
  | block {text : List Char} : ¬ ['*', '/'] <:+: text → Closes .block (text ++ ['*', '/'])
  | star {text cs : List Char} : ¬ ['*', '/'] <:+: text → '*' :: cs = text ++ ['*', '/'] →
      Closes .star cs

variable {c : Char} {cs : List Char}

theorem Closes.line_cons (hc : isBreak c = false) (h : Closes .line cs) :
    Closes .line (c :: cs) := by
  rw [isBreak, Bool.or_eq_false_iff, decide_eq_false_iff_not, decide_eq_false_iff_not] at hc
  cases h with
  | line htext hb => exact .line (List.forall_mem_cons.mpr ⟨hc, htext⟩) hb

/-- A comment goes on with a character that does not end it. -/
theorem infix_cons {d : Char} {text : List Char} (h : ¬ ['*', '/'] <:+: text)
    (hd : d = '*' → text.head? ≠ some '/') : ¬ ['*', '/'] <:+: d :: text := by
  rw [List.infix_cons_iff]
  rintro (hopen | hinside)
  · cases text with
    | nil => simp at hopen
    | cons e text =>
      simp only [List.cons_prefix_cons] at hopen
      exact hd hopen.1.symm (congrArg some hopen.2.1.symm)
  · exact h hinside

theorem Closes.block_cons (hc : c ≠ '*') (h : Closes .block cs) : Closes .block (c :: cs) := by
  cases h with
  | block htext => exact .block (infix_cons htext fun hstar => absurd hstar hc)

theorem Closes.block_star (h : Closes .star cs) : Closes .block ('*' :: cs) := by
  cases h with
  | star htext heq =>
    rw [heq]
    exact .block htext

theorem Closes.star_slash : Closes .star ['/'] := @Closes.star [] _ (by simp) rfl

theorem Closes.star_star (h : Closes .star cs) : Closes .star ('*' :: cs) := by
  cases h with
  | @star text _ htext heq =>
    refine @Closes.star ('*' :: text) _ (infix_cons htext fun _ hhead => ?_) (by rw [heq]; rfl)
    cases text with
    | nil => cases hhead
    | cons d text =>
      rw [List.cons_append, List.cons.injEq] at heq
      cases hhead
      exact absurd heq.1 (by decide)

theorem Closes.star_cons (hc : c ≠ '/') (hstar : c ≠ '*') (h : Closes .block cs) :
    Closes .star (c :: cs) := by
  cases h with
  | @block text htext =>
    refine @Closes.star ('*' :: c :: text) _ (infix_cons (infix_cons htext ?_) ?_) rfl
    · exact fun h => absurd h hstar
    · intro _ hhead
      exact hc (Option.some.inj hhead)

def Mode.inComment : Mode → Bool
  | .line | .block | .star => true
  | _ => false

theorem Mode.next_comment {m : Mode} (hm : m.inComment) :
    m.next c = .plain ∨ (m.next c).inComment := by
  cases m <;> grind [Mode.next, Mode.inComment]

/-- One more character in front of the rest of a comment. -/
theorem Closes.of_next {m : Mode} (hm : m.inComment) (h : Closes (m.next c) cs) :
    Closes m (c :: cs) := by
  cases m with
  | line =>
    by_cases hc : isBreak c
    · simp only [Mode.next, hc, if_true] at h
      cases h with
      | plain =>
        rw [isBreak, Bool.or_eq_true, decide_eq_true_eq, decide_eq_true_eq] at hc
        exact @Closes.line [] c (by simp) hc
    · simp only [Mode.next, hc] at h
      exact .line_cons (Bool.not_eq_true _ ▸ hc) h
  | block =>
    by_cases hc : c = '*'
    · subst hc
      exact .block_star h
    · simp only [Mode.next, if_neg hc] at h
      exact .block_cons hc h
  | star =>
    by_cases hslash : c = '/'
    · subst hslash
      cases h with
      | plain => exact .star_slash
    · by_cases hstar : c = '*'
      · subst hstar
        exact .star_star h
      · simp only [Mode.next, if_neg hslash, if_neg hstar] at h
        exact .star_cons hslash hstar h
  | _ => cases hm

/-! ## Fillers -/

/-- From a mode on, the first characters of a text make up the rest of a comment and a filler. -/
def Fills (m : Mode) (n : Nat) (cs : List Char) : Prop :=
  ∃ closing filler tail, cs = closing ++ (filler ++ tail) ∧ Closes m closing ∧ Filler filler ∧
    closing.length + filler.length = n

variable {m : Mode} {n : Nat}

theorem Fills.nil (cs : List Char) : Fills .plain 0 cs := ⟨[], [], cs, rfl, .plain, .nil, rfl⟩

theorem Fills.filler (h : Fills .plain n cs) :
    ∃ filler tail, cs = filler ++ tail ∧ Filler filler ∧ filler.length = n := by
  obtain ⟨closing, filler, tail, rfl, hclosing, hfiller, hlength⟩ := h
  cases hclosing with
  | plain => exact ⟨filler, tail, rfl, hfiller, by simpa using hlength⟩

theorem Fills.blank (h : Fills .plain n cs) (hc : isBlank c) : Fills .plain (n + 1) (c :: cs) := by
  obtain ⟨filler, tail, rfl, hfiller, rfl⟩ := h.filler
  exact ⟨[], c :: filler, tail, rfl, .plain, .blank hc hfiller, by simp⟩

theorem Fills.comment (h : Fills (m.next c) n cs) (hm : m.inComment) :
    Fills m (n + 1) (c :: cs) := by
  obtain ⟨closing, filler, tail, rfl, hclosing, hfiller, rfl⟩ := h
  exact ⟨c :: closing, filler, tail, rfl, hclosing.of_next hm, hfiller, by simp; omega⟩

theorem Fills.open (h : Fills (Mode.next .slash c) n cs) (hc : c = '/' ∨ c = '*') :
    Fills .plain (n + 2) ('/' :: c :: cs) := by
  obtain ⟨closing, filler, tail, rfl, hclosing, hfiller, rfl⟩ := h
  have hcomment : LineComment ('/' :: c :: closing) ∨ BlockComment ('/' :: c :: closing) := by
    rcases hc with rfl | rfl
    · cases hclosing with
      | line htext hb => exact .inl ⟨htext, hb⟩
    · cases hclosing with
      | block htext => exact .inr ⟨htext⟩
  exact ⟨[], '/' :: c :: closing ++ filler, tail, by simp, .plain, .comment hcomment hfiller,
    by simp⟩

theorem stripFrom_comment (hm : m.inComment) :
    stripFrom m (c :: cs) = blank c :: stripFrom (m.next c) cs := by
  cases m <;> first | rfl | cases hm

/-- A slash that is read as a blank opens a comment, and the character after it is a blank too. -/
theorem exists_of_slash_blank {b d : Char} {bs rest : List Char} (hb : isBlank b)
    (hd : isBlank d = false) (h : stripFrom .plain ('/' :: cs) = b :: (bs ++ d :: rest)) :
    ∃ e es b' bs', cs = e :: es ∧ (e = '/' ∨ e = '*') ∧ bs = b' :: bs' ∧
      stripFrom (Mode.next .slash e) es = bs' ++ d :: rest := by
  cases cs with
  | nil => simp [stripFrom, Mode.emit, Mode.next, Mode.afterPlain, Mode.close] at h
  | cons e es =>
    by_cases hopen : e = '/' ∨ e = '*'
    · have hstrip : ' ' :: ' ' :: stripFrom (Mode.next .slash e) es = b :: (bs ++ d :: rest) := by
        rw [← h]
        rcases hopen with rfl | rfl <;> rfl
      cases bs with
      | nil =>
        simp only [List.nil_append, List.cons.injEq] at hstrip
        rw [← hstrip.2.1] at hd
        cases hd
      | cons b' bs' =>
        simp only [List.cons_append, List.cons.injEq] at hstrip
        exact ⟨e, es, b', bs', rfl, hopen, rfl, hstrip.2.2⟩
    -- a slash that stays is no blank
    · rw [not_or] at hopen
      simp [stripFrom, Mode.emit, Mode.next, Mode.afterPlain, hopen.1, hopen.2] at h
      rw [← h.1] at hb
      cases hb

/-- Blanks that are read in plain text or in a comment, before what is no blank, were the rest of
the comment and a filler. -/
theorem fills_of_stripFrom {gap rest : List Char} {d : Char} (hm : m = .plain ∨ m.inComment)
    (hgap : Blanks gap) (hd : isBlank d = false) (h : stripFrom m cs = gap ++ d :: rest) :
    Fills m gap.length cs := by
  induction hn : cs.length using Nat.strong_induction_on generalizing m cs gap with
  | _ n ih =>
  subst hn
  cases cs with
  | nil =>
    have hclose : m.close = [] := by
      rcases hm with rfl | hm
      · rfl
      · exact close_of_ne fun hslash => by rw [hslash] at hm; cases hm
    rw [stripFrom, hclose] at h
    simp at h
  | cons c cs =>
  rcases hm with rfl | hm
  · cases gap with
    | nil => exact .nil _
    | cons b bs =>
      obtain ⟨hb, hbs⟩ := hgap.of_cons
      by_cases hc : c = '/'
      · subst hc
        obtain ⟨e, es, b', bs', rfl, hopen, rfl, hrest⟩ := exists_of_slash_blank hb hd h
        have hshorter : es.length < ('/' :: e :: es).length := by
          rw [List.length_cons, List.length_cons]
          omega
        refine (ih es.length hshorter ?_ hbs.of_cons.2 hrest rfl).open hopen
        right
        rcases hopen with rfl | rfl <;> rfl
      · simp only [stripFrom, Mode.emit, if_neg hc, List.cons_append, List.nil_append,
          List.cons.injEq] at h
        obtain ⟨rfl, h⟩ := h
        have hnext : Mode.next .plain c = .plain := by
          simp [Mode.next, Mode.afterPlain, hc, (isBlank_ne hb).2.2]
        rw [hnext] at h
        exact (ih cs.length (by simp) (.inl rfl) hbs h rfl).blank hb
  · rw [stripFrom_comment hm] at h
    cases gap with
    | nil =>
      rw [List.nil_append, List.cons.injEq] at h
      rw [← h.1, isBlank_blank] at hd
      cases hd
    | cons b bs =>
      rw [List.cons_append, List.cons.injEq] at h
      exact (ih cs.length (by simp) (Mode.next_comment hm) hgap.of_cons.2 h.2 rfl).comment hm

/-- In a string blanks are only themselves. -/
theorem filler_of_quoted {gap rest : List Char} (hgap : Blanks gap)
    (h : stripFrom .quoted cs = gap ++ rest) : ∃ tail, cs = gap ++ tail := by
  induction gap generalizing cs with
  | nil => exact ⟨cs, rfl⟩
  | cons b bs ih =>
    obtain ⟨hb, hbs⟩ := hgap.of_cons
    cases cs with
    | nil => simp [stripFrom, Mode.close] at h
    | cons c cs =>
      simp only [stripFrom, Mode.emit, List.cons_append, List.nil_append, List.cons.injEq] at h
      obtain ⟨rfl, h⟩ := h
      have hnext : Mode.next .quoted c = .quoted := by
        have hback : c ≠ '\\' := by
          rintro rfl
          cases hb
        simp [Mode.next, hback, (isBlank_ne hb).2.2]
      rw [hnext] at h
      obtain ⟨tail, rfl⟩ := ih hbs h
      exact ⟨tail, rfl⟩

theorem filler_of_blanks {bs : List Char} (h : Blanks bs) : Filler bs := by
  induction bs with
  | nil => exact .nil
  | cons b bs ih => exact .blank h.of_cons.1 (ih h.of_cons.2)

/-- Blanks that are read in plain text or in a string, before what is no blank, are a filler. -/
theorem exists_filler_of_stripFrom {gap rest : List Char} {d : Char} (hm : m = .plain ∨ m = .quoted)
    (hgap : Blanks gap) (hd : isBlank d = false) (h : stripFrom m cs = gap ++ d :: rest) :
    ∃ filler tail, cs = filler ++ tail ∧ Filler filler ∧ filler.length = gap.length := by
  rcases hm with rfl | rfl
  · exact (fills_of_stripFrom (.inl rfl) hgap hd h).filler
  · obtain ⟨tail, hcs⟩ := filler_of_quoted hgap h
    exact ⟨gap, tail, hcs, filler_of_blanks hgap, rfl⟩

/-! ## Part by part -/

/-- A character adds as much as it takes, but for a slash that waits. -/
theorem length_emit (m : Mode) (c : Char) :
    (m.emit c).length + (m.next c).close.length = 1 + m.close.length := by
  cases m <;> grind [Mode.emit, Mode.next, Mode.afterPlain, Mode.close]

/-- What a part of a text adds; a slash at its end still waits. -/
theorem stripFrom_append (m : Mode) (pre : List Char) : ∃ out : List Char,
    out.length + (pre.foldl Mode.next m).close.length = pre.length + m.close.length ∧
      ∀ cs, stripFrom m (pre ++ cs) = out ++ stripFrom (pre.foldl Mode.next m) cs := by
  induction pre generalizing m with
  | nil => exact ⟨[], by simp, fun cs => rfl⟩
  | cons c pre ih =>
    obtain ⟨out, hlength, hout⟩ := ih (m.next c)
    have hemit := length_emit m c
    refine ⟨m.emit c ++ out, ?_, fun cs => ?_⟩
    · rw [List.length_append, List.foldl_cons, List.length_cons]
      omega
    · rw [List.cons_append, stripFrom, hout, List.append_assoc, List.foldl_cons]

/-- The blanking of a part of a text after which no slash waits. -/
theorem drop_stripFrom {pre : List Char} (h : pre.foldl Mode.next .plain ≠ .slash)
    (cs : List Char) : (stripFrom .plain (pre ++ cs)).drop pre.length =
      stripFrom (pre.foldl Mode.next .plain) cs := by
  obtain ⟨out, hlength, hout⟩ := stripFrom_append .plain pre
  rw [close_of_ne h] at hlength
  have hout' : out.length = pre.length := by simpa [Mode.close] using hlength
  rw [hout, ← hout', List.drop_left]

/-- After a minus that is read, the text goes on in plain text or in a string. -/
theorem next_minus {pre : List Char} (rest : List Char)
    (h : (stripFrom .plain (pre ++ '-' :: cs)).drop pre.length = '-' :: rest) :
    (pre ++ ['-']).foldl Mode.next .plain = .plain ∨
      (pre ++ ['-']).foldl Mode.next .plain = .quoted := by
  rw [List.foldl_append, List.foldl_cons, List.foldl_nil]
  cases hm : pre.foldl Mode.next .plain with
  | plain => exact .inl rfl
  | slash => exact .inl rfl
  | quoted => exact .inr rfl
  | escaped => exact .inr rfl
  | line | block | star =>
    -- a minus in a comment is blanked
    rw [drop_stripFrom (by rw [hm]; decide), hm, stripFrom_comment rfl, List.cons.injEq] at h
    exact absurd h.1 (by decide)

end Comment

/-! ## The prepared text -/

theorem exists_blanks_of_plainBreaks {bs ys cs : List Char} (hbs : Blanks bs)
    (h : plainBreaks cs = bs ++ ys) :
    ∃ bs' cs', cs = bs' ++ cs' ∧ bs'.length = bs.length ∧ Blanks bs' ∧ plainBreaks cs' = ys := by
  induction bs generalizing cs with
  | nil => exact ⟨[], cs, rfl, rfl, .nil, h⟩
  | cons b bs ih =>
    cases cs with
    | nil => simp [plainBreaks] at h
    | cons c cs =>
      rw [plainBreaks_cons, List.cons_append, List.cons.injEq] at h
      obtain ⟨hb, hbs⟩ := hbs.of_cons
      obtain ⟨bs', cs', rfl, hlength, hbs', hys⟩ := ih hbs h.2
      have hc : isBlank c := by
        rw [← h.1, plainBreak] at hb
        split at hb
        · next hreturn =>
          rw [hreturn]
          decide
        · exact hb
      exact ⟨c :: bs', cs', rfl, by simp [hlength], .cons hc hbs', hys⟩

variable {source : String} {n : Nat} {gap w after : List Char}

/-- The blanks that are read after a minus are blanks of the text without its comments. -/
theorem exists_blanks_of_prepare {d : Char}
    (h : (prepare source).1.drop n = '-' :: (gap ++ d :: after)) (hgap : Blanks gap)
    (hd : isBlank d = false) (hn : n + 1 + gap.length < source.toList.length) :
    ∃ gap' rest, Blanks gap' ∧ gap'.length = gap.length ∧
      (Comment.strip source).toList.drop n = '-' :: (gap' ++ d :: rest) := by
  have hle : n ≤ (Comment.strip source).toList.length := by
    rw [Comment.length_strip]
    omega
  rw [prepare_append, drop_plainBreaks, List.drop_append_of_le_length hle] at h
  obtain ⟨cs, hcs⟩ : ['-'] <+: (Comment.strip source).toList.drop n ++ addedPoint source :=
    prefix_of_plainBreaks ⟨_, h.symm⟩ (List.forall_mem_singleton.mpr rfl)
  rw [List.singleton_append] at hcs
  rw [← hcs, plainBreaks_cons_of_ne (by decide), List.cons.injEq] at h
  obtain ⟨gap', cs', rfl, hlength, hgap', hcs'⟩ := exists_blanks_of_plainBreaks hgap h.2
  obtain ⟨rest, rfl⟩ : [d] <+: cs' := prefix_of_plainBreaks ⟨after, hcs'.symm⟩ (by simpa)
  have hprefix : '-' :: (gap' ++ [d]) <+: (Comment.strip source).toList.drop n := by
    have hall : '-' :: (gap' ++ [d]) <+:
        (Comment.strip source).toList.drop n ++ addedPoint source := by
      refine ⟨rest, ?_⟩
      rw [← hcs]
      simp
    refine List.prefix_of_prefix_length_le hall (List.prefix_append _ _) ?_
    simp only [List.length_cons, List.length_append, List.length_nil, List.length_drop,
      Comment.length_strip, hlength]
    omega
  obtain ⟨rest, hrest⟩ := hprefix
  exact ⟨gap', rest, hgap', hlength, by rw [← hrest]; simp⟩

/-- Where blanks are read between a minus and a word, the text has a filler. -/
theorem exists_filler (h : (prepare source).1.drop n = '-' :: (gap ++ (w ++ after)))
    (hgap : Blanks gap) (hne : w ≠ []) (hw : ∀ c ∈ w, isBlank c = false)
    (hn : n + 1 + gap.length + w.length ≤ source.toList.length) :
    ∃ filler, Filler filler ∧ '-' :: (filler ++ w) <+: source.toList.drop n := by
  obtain ⟨d, w', rfl⟩ := List.exists_cons_of_ne_nil hne
  rw [List.length_cons] at hn
  obtain ⟨os, hos⟩ : ['-'] <+: source.toList.drop n :=
    prefix_of_prepare ⟨_, h.symm⟩ (List.forall_mem_singleton.mpr rfl)
      (by rw [List.length_singleton]; omega)
  have hword : d :: w' <+: os.drop gap.length := by
    have hdrop : (prepare source).1.drop (n + (1 + gap.length)) = d :: w' ++ after := by
      rw [← List.drop_drop, h, Nat.add_comm 1, List.drop_succ_cons, List.drop_left]
    have hprefix := prefix_of_prepare ⟨after, hdrop.symm⟩ hw
      (by rw [List.length_cons]; omega)
    rwa [← List.drop_drop, ← hos, Nat.add_comm 1, List.singleton_append, List.drop_succ_cons]
      at hprefix
  -- what precedes the minus settles how the text goes on
  have hlength : (source.toList.take n).length = n := by
    rw [List.length_take]
    omega
  have hsource : source.toList = source.toList.take n ++ '-' :: os := by
    rw [← List.singleton_append, hos, List.take_append_drop]
  obtain ⟨gap', rest, hgap', hlen, hstrip⟩ :=
    exists_blanks_of_prepare h hgap (hw d List.mem_cons_self) (by omega)
  rw [Comment.toList_strip, hsource] at hstrip
  have hmode := Comment.next_minus (gap' ++ d :: rest) (by rw [hlength, hstrip])
  have hafter : Comment.stripFrom ((source.toList.take n ++ ['-']).foldl Comment.Mode.next .plain)
      os = gap' ++ d :: rest := by
    rw [← Comment.drop_stripFrom, List.append_assoc, List.singleton_append, List.length_append,
      hlength, ← List.drop_drop, hstrip]
    · rfl
    · rcases hmode with hmode | hmode <;> rw [hmode] <;> decide
  obtain ⟨filler, tail, rfl, hfiller, hfillerLength⟩ :=
    Comment.exists_filler_of_stripFrom hmode hgap' (hw d List.mem_cons_self) hafter
  rw [← hlen, ← hfillerLength, List.drop_left] at hword
  obtain ⟨tail', rfl⟩ := hword
  exact ⟨filler, hfiller, tail', by rw [← hos]; simp⟩

end Formulary

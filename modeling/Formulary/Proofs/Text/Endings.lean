import Formulary.Proofs.Text.Prepared

/-!
# Texts that are read alike

Blanking the comments of a text once more changes nothing, and neither does writing its line feeds
as carriage returns.  A text with carriage returns put before its line feeds is prepared with a
blank before each line feed.

* `Comment.strip_strip`, `prepare_strip`: comments are blanked once.
* `rebreak`, `withBreaks`: a text with other line breaks.
* `prepare_returns`, `prepare_pairs`: what is read of it.
* `pairOffset`: where the characters of the text are found in it.
-/

namespace Formulary

namespace Comment

/-! ## Blanking twice -/

/-- The mode of the blanked text, in which nothing is left of a comment. -/
def Mode.blanked : Mode → Mode
  | .quoted => .quoted
  | .escaped => .escaped
  | _ => .plain

theorem blank_ne (c : Char) : blank c ≠ '/' ∧ blank c ≠ '*' ∧ blank c ≠ '"' :=
  isBlank_ne (isBlank_blank c)

/-- A character that neither waits nor opens a string stays in plain text. -/
theorem stripFrom_cons_plain {c : Char} (hslash : c ≠ '/') (hquote : c ≠ '"') (cs : List Char) :
    stripFrom .plain (c :: cs) = c :: stripFrom .plain cs := by
  simp only [stripFrom, Mode.emit, Mode.next, Mode.afterPlain, hslash, hquote, if_false,
    List.singleton_append]

/-- The two characters that open a comment become blanks. -/
theorem stripFrom_opener {c : Char} (h : c = '/' ∨ c = '*') (cs : List Char) :
    stripFrom .slash (c :: cs) = ' ' :: ' ' :: stripFrom (Mode.slash.next c) cs := by
  simp only [stripFrom, Mode.emit, h, if_true, List.cons_append, List.nil_append]

/-- A slash that waited is written with the character after it. -/
theorem stripFrom_no_opener {c : Char} (h : ¬ (c = '/' ∨ c = '*')) (cs : List Char) :
    stripFrom .slash (c :: cs) = '/' :: c :: stripFrom (Mode.plain.next c) cs := by
  rw [not_or] at h
  simp only [stripFrom, Mode.emit, Mode.next, h.1, h.2, or_self, if_false, List.cons_append,
    List.nil_append]

/-- The blanked text has no comments, and its strings are those of the text. -/
theorem stripFrom_stripFrom (m : Mode) (cs : List Char) :
    stripFrom m.blanked (stripFrom m cs) = stripFrom m cs := by
  induction cs generalizing m with
  | nil => cases m <;> rfl
  | cons c cs ih =>
    have hnext := ih (m.next c)
    have hblank : (m.next c).blanked = .plain →
        stripFrom .plain (blank c :: stripFrom (m.next c) cs) =
          blank c :: stripFrom (m.next c) cs := by
      intro hm
      rw [hm] at hnext
      rw [stripFrom_cons_plain (blank_ne c).1 (blank_ne c).2.2, hnext]
    have hplain : c ≠ '/' → (Mode.plain.next c).blanked = Mode.plain.next c := by
      intro hc
      rw [Mode.next, Mode.afterPlain, if_neg hc]
      split <;> rfl
    cases m with
    | plain =>
      by_cases hc : c = '/'
      · subst hc
        exact hnext
      · rw [hplain hc] at hnext
        have hwrite : ∀ ds, stripFrom .plain (c :: ds) = c :: stripFrom (Mode.plain.next c) ds := by
          intro ds
          rw [stripFrom, Mode.emit, if_neg hc, List.singleton_append]
        show stripFrom .plain (stripFrom .plain (c :: cs)) = _
        rw [hwrite, hwrite, hnext]
    | slash =>
      show stripFrom .plain (stripFrom .slash (c :: cs)) = stripFrom .slash (c :: cs)
      by_cases hopen : c = '/' ∨ c = '*'
      · have hm : (Mode.slash.next c).blanked = .plain := by rcases hopen with rfl | rfl <;> rfl
        rw [hm] at hnext
        rw [stripFrom_opener hopen, stripFrom_cons_plain (by decide) (by decide),
          stripFrom_cons_plain (by decide) (by decide), hnext]
      · have hnext := ih (Mode.plain.next c)
        rw [hplain fun hc => hopen (.inl hc)] at hnext
        rw [stripFrom_no_opener hopen]
        -- the slash waits again for the character after it
        show stripFrom .slash (c :: stripFrom (Mode.plain.next c) cs) = _
        rw [stripFrom_no_opener hopen, hnext]
    | line => exact hblank (by rw [Mode.next]; split <;> rfl)
    | block => exact hblank (by rw [Mode.next]; split <;> rfl)
    | star => exact hblank (by rw [Mode.next]; split <;> [rfl; (split <;> rfl)])
    | quoted =>
      have hm : (Mode.quoted.next c).blanked = Mode.quoted.next c := by
        rw [Mode.next]
        split <;> [rfl; (split <;> rfl)]
      rw [hm] at hnext
      exact congrArg (c :: ·) hnext
    | escaped => exact congrArg (c :: ·) hnext

theorem strip_strip (source : String) : strip (strip source) = strip source := by
  rw [← String.toList_inj, toList_strip (strip source), toList_strip source]
  exact stripFrom_stripFrom .plain source.toList

end Comment

theorem prepare_strip (source : String) : prepare (Comment.strip source) = prepare source := by
  rw [prepare, prepare, Comment.strip_strip]

/-! ## Other line breaks -/

/-- The characters with every line feed written as `brk`. -/
def rebreak (brk cs : List Char) : List Char := cs.flatMap fun c => if c = '\n' then brk else [c]

def withBreaks (brk : List Char) (source : String) : String :=
  String.ofList (rebreak brk source.toList)

variable {brk : List Char}

theorem rebreak_nil (brk : List Char) : rebreak brk [] = [] := rfl

theorem rebreak_append (brk cs ds : List Char) :
    rebreak brk (cs ++ ds) = rebreak brk cs ++ rebreak brk ds := List.flatMap_append

theorem rebreak_cons (brk : List Char) (c : Char) (cs : List Char) :
    rebreak brk (c :: cs) = (if c = '\n' then brk else [c]) ++ rebreak brk cs := List.flatMap_cons

theorem rebreak_of_ne {cs : List Char} (h : '\n' ∉ cs) : rebreak brk cs = cs := by
  induction cs with
  | nil => rfl
  | cons c cs ih =>
    rw [List.mem_cons, not_or] at h
    rw [rebreak_cons, if_neg (Ne.symm h.1), ih h.2, List.singleton_append]

/-- What is kept of the characters is the same if no line break is kept. -/
theorem filter_rebreak {p : Char → Bool} (hbrk : brk.filter p = []) (hfeed : p '\n' = false)
    (cs : List Char) : (rebreak brk cs).filter p = cs.filter p := by
  induction cs with
  | nil => rfl
  | cons c cs ih =>
    rw [rebreak_cons, List.filter_append, ih]
    by_cases hc : c = '\n'
    · subst hc
      rw [if_pos rfl, hbrk, List.nil_append, List.filter_cons, hfeed, if_neg (by decide)]
    · rw [if_neg hc, ← List.filter_append, List.singleton_append]

namespace Comment

/-- After a break the mode is the same however often it is repeated. -/
theorem stripFrom_breaks (m : Mode) (hbrk : ∀ b ∈ brk, isBreak b) (hne : brk ≠ [])
    (cs : List Char) : stripFrom m (brk ++ cs) = m.close ++ brk ++ stripFrom (m.next '\n') cs := by
  have hemit : ∀ (m : Mode) {b : Char}, isBreak b → m.emit b = m.close ++ [b] := by
    intro m b hb
    cases m <;> grind [Mode.emit, Mode.close, blank, isBreak]
  have hnext : ∀ (m : Mode) {b : Char}, isBreak b → m.next b = m.next '\n' := by
    intro m b hb
    cases m <;> grind [Mode.next, Mode.afterPlain, isBreak]
  have hrest : ∀ (m : Mode) (brk : List Char), (∀ b ∈ brk, isBreak b) →
      stripFrom (m.next '\n') (brk ++ cs) = brk ++ stripFrom (m.next '\n') cs := by
    intro m brk hbrk
    have hstays : (m.next '\n').next '\n' = m.next '\n' := by cases m <;> rfl
    have hclose : (m.next '\n').close = [] := by cases m <;> rfl
    induction brk with
    | nil => rfl
    | cons b brk ih =>
      rw [List.forall_mem_cons] at hbrk
      rw [List.cons_append, stripFrom, hemit _ hbrk.1, hnext _ hbrk.1, hstays, hclose, ih hbrk.2]
      rfl
  cases brk with
  | nil => exact absurd rfl hne
  | cons b brk =>
    rw [List.forall_mem_cons] at hbrk
    rw [List.cons_append, stripFrom, hemit m hbrk.1, hnext m hbrk.1, hrest m brk hbrk.2]
    simp only [List.append_assoc, List.cons_append, List.nil_append]

/-- The blanking of comments does not depend on how lines are broken. -/
theorem stripFrom_rebreak (hbrk : ∀ b ∈ brk, isBreak b) (hne : brk ≠ []) (m : Mode)
    (cs : List Char) : stripFrom m (rebreak brk cs) = rebreak brk (stripFrom m cs) := by
  induction cs generalizing m with
  | nil => cases m <;> rfl
  | cons c cs ih =>
    have hclose : '\n' ∉ m.close := by cases m <;> decide
    rw [rebreak_cons]
    by_cases hc : c = '\n'
    · subst hc
      have hemit : m.emit '\n' = m.close ++ ['\n'] := by cases m <;> rfl
      rw [if_pos rfl, stripFrom_breaks m hbrk hne, ih, stripFrom, hemit, rebreak_append,
        rebreak_append, rebreak_of_ne hclose]
      simp only [rebreak_cons, if_true, rebreak_nil, List.append_nil]
    · have hemit : '\n' ∉ m.emit c := by
        cases m <;> grind [Mode.emit, blank, isBreak]
      rw [if_neg hc, List.singleton_append, stripFrom, ih, stripFrom, rebreak_append,
        rebreak_of_ne hemit]

theorem toList_strip_withBreaks (hbrk : ∀ b ∈ brk, isBreak b) (hne : brk ≠ []) (source : String) :
    (strip (withBreaks brk source)).toList = rebreak brk (strip source).toList := by
  rw [toList_strip, withBreaks, String.toList_ofList, stripFrom_rebreak hbrk hne, ← toList_strip]

end Comment

/-! ## Preparation -/

theorem endsWithPoint_filter (cs : List Char) :
    endsWithPoint cs = ((cs.filter (!isSpace ·)).getLast? == some '.') := by
  rw [endsWithPoint, ← List.head?_filter, List.filter_reverse, List.head?_reverse]

theorem isSpace_of_isBreak {b : Char} (h : Comment.isBreak b) : isSpace b := by
  simp only [Comment.isBreak, Bool.or_eq_true, decide_eq_true_eq] at h
  rcases h with rfl | rfl <;> decide

theorem endsWithPoint_rebreak (hbrk : ∀ b ∈ brk, Comment.isBreak b) (cs : List Char) :
    endsWithPoint (rebreak brk cs) = endsWithPoint cs := by
  have hnone : brk.filter (!isSpace ·) = [] := by
    rw [List.filter_eq_nil_iff]
    intro b hb
    rw [isSpace_of_isBreak (hbrk b hb)]
    decide
  rw [endsWithPoint_filter, endsWithPoint_filter, filter_rebreak hnone (by decide)]

theorem break_not_mem_addedPoint (source : String) {b : Char} (hb : Comment.isBreak b) :
    b ∉ addedPoint source := by
  have hne : b ≠ '.' := by
    rintro rfl
    exact absurd hb (by decide)
  rcases addedPoint_cases source with h | h <;> rw [h] <;> simp [hne]

/-- What is read of a text with other breaks, before its line breaks are made plain. -/
theorem prepare_withBreaks (hbrk : ∀ b ∈ brk, Comment.isBreak b) (hne : brk ≠ [])
    (source : String) : prepare (withBreaks brk source) =
      (plainBreaks (rebreak brk ((Comment.strip source).toList ++ addedPoint source)),
        (prepare source).2) := by
  have hpoint : addedPoint (withBreaks brk source) = addedPoint source ∧
      (prepare (withBreaks brk source)).2 = (prepare source).2 := by
    rw [addedPoint, addedPoint, prepare, prepare, Comment.toList_strip_withBreaks hbrk hne,
      endsWithPoint_rebreak hbrk]
    split <;> exact ⟨rfl, rfl⟩
  rw [rebreak_append, rebreak_of_ne (break_not_mem_addedPoint source (by decide)),
    ← Comment.toList_strip_withBreaks hbrk hne, ← hpoint.1, ← hpoint.2, ← prepare_append]

variable {source : String}

/-- The line breaks of the blanked text are those of the text. -/
theorem Comment.count_blanked {cs ds : List Char} (h : List.Forall₂ Comment.Blanked cs ds)
    {b : Char} (hb : isBreak b) : ds.count b = cs.count b := by
  induction h with
  | nil => rfl
  | @cons c d cs ds hcd _ ih =>
    have heq : (d == b) = (c == b) := by
      rw [Bool.eq_iff_iff, beq_iff_eq, beq_iff_eq]
      exact hcd.eq_break_iff hb
    rw [List.count_cons, List.count_cons, ih, heq]

theorem return_not_mem_strip (h : '\r' ∉ source.toList) :
    '\r' ∉ (Comment.strip source).toList ++ addedPoint source := by
  rw [List.mem_append, not_or, ← List.count_eq_zero,
    Comment.count_blanked (Comment.forall₂_strip source) (by decide), List.count_eq_zero]
  exact ⟨h, break_not_mem_addedPoint source (by decide)⟩

theorem plainBreaks_of_ne {cs : List Char} (h : '\r' ∉ cs) : plainBreaks cs = cs := by
  induction cs with
  | nil => rfl
  | cons c cs ih =>
    rw [List.mem_cons, not_or] at h
    rw [plainBreaks_cons_of_ne (Ne.symm h.1), ih h.2]

theorem plainBreaks_returns {cs : List Char} (h : '\r' ∉ cs) :
    plainBreaks (rebreak ['\r'] cs) = cs := by
  induction cs with
  | nil => rfl
  | cons c cs ih =>
    rw [List.mem_cons, not_or] at h
    rw [rebreak_cons]
    by_cases hc : c = '\n'
    · subst hc
      have hfeed : (rebreak ['\r'] cs).headD ' ' ≠ '\n' := by
        cases cs with
        | nil => decide
        | cons d ds =>
          rw [rebreak_cons]
          by_cases hd : d = '\n' <;> simp [hd]
      rw [if_pos rfl, List.singleton_append, plainBreaks_cons, ih h.2, plainBreak, if_pos rfl,
        if_neg hfeed]
    · rw [if_neg hc, List.singleton_append, plainBreaks_cons_of_ne (Ne.symm h.1), ih h.2]

theorem plainBreaks_pairs {cs : List Char} (h : '\r' ∉ cs) :
    plainBreaks (rebreak ['\r', '\n'] cs) = rebreak [' ', '\n'] cs := by
  induction cs with
  | nil => rfl
  | cons c cs ih =>
    rw [List.mem_cons, not_or] at h
    rw [rebreak_cons, rebreak_cons]
    by_cases hc : c = '\n'
    · subst hc
      rw [if_pos rfl, if_pos rfl, List.cons_append, plainBreaks_cons, List.singleton_append,
        plainBreaks_cons_of_ne (by decide), ih h.2]
      rfl
    · rw [if_neg hc, if_neg hc, List.singleton_append, plainBreaks_cons_of_ne (Ne.symm h.1), ih h.2,
        List.singleton_append]

theorem prepare_of_no_return (h : '\r' ∉ source.toList) :
    (prepare source).1 = (Comment.strip source).toList ++ addedPoint source := by
  rw [prepare_append, plainBreaks_of_ne (return_not_mem_strip h)]

/-- Line feeds are read the same where they are written as carriage returns. -/
theorem prepare_returns (h : '\r' ∉ source.toList) :
    prepare (withBreaks ['\r'] source) = prepare source := by
  have hbreak : ∀ b ∈ ['\r'], Comment.isBreak b := List.forall_mem_singleton.mpr rfl
  rw [prepare_withBreaks hbreak (List.cons_ne_nil _ _),
    plainBreaks_returns (return_not_mem_strip h), ← prepare_of_no_return h]

/-- A carriage return before a line feed is read as a blank. -/
theorem prepare_pairs (h : '\r' ∉ source.toList) : prepare (withBreaks ['\r', '\n'] source) =
    (rebreak [' ', '\n'] (prepare source).1, (prepare source).2) := by
  have hbreak : ∀ b ∈ ['\r', '\n'], Comment.isBreak b :=
    List.forall_mem_cons.mpr ⟨rfl, List.forall_mem_singleton.mpr rfl⟩
  rw [prepare_withBreaks hbreak (List.cons_ne_nil _ _), plainBreaks_pairs (return_not_mem_strip h),
    ← prepare_of_no_return h]

/-! ## Offsets -/

/-- Where the character at an offset stands once each line feed before it has become two
characters. -/
def pairOffset (cs : List Char) (n : Nat) : Nat := n + (cs.take n).count '\n'

/-- The line feeds that are read are those of the text. -/
theorem pairOffset_prepare (h : '\r' ∉ source.toList) (n : Nat) :
    pairOffset (prepare source).1 n = pairOffset source.toList n := by
  have hadded : ((addedPoint source).take (n - (Comment.strip source).toList.length)).count '\n' =
      0 := by
    rw [List.count_eq_zero]
    exact fun hmem => break_not_mem_addedPoint source (by decide) (List.mem_of_mem_take hmem)
  rw [pairOffset, pairOffset, prepare_of_no_return h, List.take_append, List.count_append, hadded,
    Comment.count_blanked (List.forall₂_take n (Comment.forall₂_strip source)) (by decide),
    Nat.add_zero]

theorem pairOffset_succ {cs : List Char} {n : Nat} {c : Char} (h : cs[n]? = some c) :
    pairOffset cs (n + 1) = pairOffset cs n + if c = '\n' then 2 else 1 := by
  rw [pairOffset, pairOffset, List.take_add_one, h, List.count_append]
  by_cases hc : c = '\n'
  · simp [hc]
    omega
  · simp [hc]
    omega

end Formulary

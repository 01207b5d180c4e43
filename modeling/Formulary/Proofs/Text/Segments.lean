import Formulary.Proofs.Text.Endings
import Formulary.Proofs.Text.Fillers
import Formulary.Text.Comment

/-!
# The segments of a text and its comments

A text has one division into characters, strings and comments from the left.  The blanking of its
comments keeps the characters and the strings, and blanks each comment but for its line breaks.

* `Comment.Segment.Leads`: a segment ends where its own rule says, given what follows it.
* `Comment.Divides`: segments that make up a text; `Comment.divides_iff`: they are
  `Comment.segments`.
* `Comment.Divides.strip`: the blanking, segment by segment.
* `Comment.strip_segments`: the blanked text, whole and at each line break.
-/

namespace Formulary.Comment

/-! ## Segments -/

/-- The rest of a string after its opening quote.  A backslash protects the next character, and the
closing quote is missing only where the text ends. -/
inductive StringRest : List Char → List Char → Prop
  | close {rest : List Char} : StringRest ['"'] rest
  | cut : StringRest [] []
  | cutEscape : StringRest ['\\'] []
  | escape {c : Char} {text rest : List Char} : StringRest text rest →
      StringRest ('\\' :: c :: text) rest
  | next {c : Char} {text rest : List Char} : c ≠ '"' → c ≠ '\\' → StringRest text rest →
      StringRest (c :: text) rest

def OpensComment (c : Char) (rest : List Char) : Prop :=
  c = '/' ∧ (rest.head? = some '/' ∨ rest.head? = some '*')

/-- A segment of a text, with what follows it.  A line comment ends before a line break, a block
comment with the first `*/` after its opener, and both where the text ends. -/
inductive Segment.Leads : Segment → List Char → Prop
  | plain {c : Char} {rest : List Char} : c ≠ '"' → ¬ OpensComment c rest →
      Leads (.plain c) rest
  | quoted {text rest : List Char} : StringRest text rest → Leads (.quoted ('"' :: text)) rest
  | line {text rest : List Char} : (∀ c ∈ text, isBreak c = false) →
      (∀ c ∈ rest.head?, isBreak c) → Leads (.comment ('/' :: '/' :: text)) rest
  | block {text rest : List Char} : ¬ ['*', '/'] <:+: text →
      Leads (.comment ('/' :: '*' :: (text ++ ['*', '/']))) rest
  | openBlock {text : List Char} : ¬ ['*', '/'] <:+: text →
      Leads (.comment ('/' :: '*' :: text)) []

/-- Segments that make up a text, from the left. -/
inductive Divides : List Segment → List Char → Prop
  | nil : Divides [] []
  | cons {s : Segment} {ss : List Segment} {rest : List Char} : s.Leads rest → Divides ss rest →
      Divides (s :: ss) (s.characters ++ rest)

variable {s : Segment} {ss : List Segment} {cs text rest : List Char}

theorem Divides.characters (h : Divides ss cs) : ss.flatMap Segment.characters = cs := by
  induction h with
  | nil => rfl
  | cons _ _ ih => rw [List.flatMap_cons, ih]

/-! ## The division of a text -/

theorem splitQuoted_append (cs : List Char) : (splitQuoted cs).1 ++ (splitQuoted cs).2 = cs := by
  fun_induction splitQuoted cs with
  | case1 => rfl
  | case2 c cs ih => rw [List.cons_append, List.cons_append, ih]
  | case3 cs => rfl
  | case4 c cs _ _ ih => rw [List.cons_append, ih]

theorem stringRest_splitQuoted (cs : List Char) :
    StringRest (splitQuoted cs).1 (splitQuoted cs).2 := by
  fun_induction splitQuoted cs with
  | case1 => exact .cut
  | case2 c cs ih => exact .escape ih
  | case3 cs => exact .close
  | case4 c cs hback hquote ih =>
    by_cases hc : c = '\\'
    · -- only at the end of the text does a backslash protect nothing
      cases cs with
      | nil =>
        subst hc
        exact .cutEscape
      | cons d cs => exact absurd rfl (hback d cs hc)
    · exact .next (fun h => hquote h) hc ih

theorem StringRest.splitQuoted (h : StringRest text rest) :
    splitQuoted (text ++ rest) = (text, rest) := by
  induction h with
  | close => rfl
  | cut => rfl
  | cutEscape => rfl
  | escape _ ih => simp [Comment.splitQuoted, ih]
  | @next c text rest hquote hback _ ih =>
    rw [List.cons_append, Comment.splitQuoted.eq_4 _ _ (fun _ _ h _ => hback h) hquote, ih]

theorem splitBlock_append (cs : List Char) : (splitBlock cs).1 ++ (splitBlock cs).2 = cs := by
  fun_induction splitBlock cs with
  | case1 => rfl
  | case2 cs => rfl
  | case3 c cs _ ih => rw [List.cons_append, ih]

/-- A block comment goes to its first end, or to the end of the text. -/
theorem splitBlock_cases (cs : List Char) :
    (∃ text, (splitBlock cs).1 = text ++ ['*', '/'] ∧ ¬ ['*', '/'] <:+: text) ∨
      (splitBlock cs).2 = [] ∧ ¬ ['*', '/'] <:+: (splitBlock cs).1 := by
  fun_induction splitBlock cs with
  | case1 => exact .inr ⟨rfl, by simp⟩
  | case2 cs => exact .inl ⟨[], rfl, by simp⟩
  | case3 c cs hopen ih =>
    have hnext : c = '*' → cs.head? ≠ some '/' := by
      intro hc hhead
      obtain ⟨ds, rfl⟩ := List.head?_eq_some_iff.mp hhead
      exact hopen ds hc rfl
    have hcs := splitBlock_append cs
    rcases ih with ⟨text, hfirst, htext⟩ | ⟨hrest, htext⟩
    · refine .inl ⟨c :: text, by rw [hfirst, List.cons_append], infix_cons htext fun hc hhead => ?_⟩
      obtain ⟨ds, rfl⟩ := List.head?_eq_some_iff.mp hhead
      exact hnext hc (by rw [← hcs, hfirst]; rfl)
    · rw [hrest, List.append_nil] at hcs
      exact .inr ⟨hrest, infix_cons htext fun hc hhead =>
        hnext hc ((congrArg List.head? hcs).symm.trans hhead)⟩

theorem splitBlock_close (h : ¬ ['*', '/'] <:+: text) (rest : List Char) :
    splitBlock (text ++ '*' :: '/' :: rest) = (text ++ ['*', '/'], rest) := by
  induction text with
  | nil => rfl
  | cons c text ih =>
    rw [List.cons_append, splitBlock.eq_3, ih fun hinside => h (List.infix_cons hinside)]
    · rfl
    · rintro ds rfl hds
      cases text with
      | nil => cases hds
      | cons d text =>
        obtain ⟨rfl, -⟩ := List.cons.inj hds
        exact h ⟨[], text, rfl⟩

theorem splitBlock_open (h : ¬ ['*', '/'] <:+: text) : splitBlock text = (text, []) := by
  induction text with
  | nil => rfl
  | cons c text ih =>
    rw [splitBlock.eq_3, ih fun hinside => h (List.infix_cons hinside)]
    rintro ds rfl rfl
    exact h ⟨[], ds, rfl⟩

theorem segments_plain {c : Char} (hquote : c ≠ '"') (hopen : ¬ OpensComment c rest) :
    segments (c :: rest) = .plain c :: segments rest := by
  rw [segments.eq_5 c rest hquote]
  · rintro ds rfl rfl
    exact hopen ⟨rfl, .inl rfl⟩
  · rintro ds rfl rfl
    exact hopen ⟨rfl, .inr rfl⟩

/-- The division of a text makes it up. -/
theorem divides_segments (cs : List Char) : Divides (segments cs) cs := by
  fun_induction segments cs with
  | case1 => exact .nil
  | case2 cs ih =>
    have h := Divides.cons (.quoted (stringRest_splitQuoted cs)) ih
    rwa [Segment.characters, List.cons_append, splitQuoted_append] at h
  | case3 cs ih =>
    have htext : ∀ c ∈ cs.takeWhile (!isBreak ·), isBreak c = false := fun c hc => by
      simpa using List.mem_takeWhile_imp hc
    have hbreak : ∀ c ∈ (cs.dropWhile (!isBreak ·)).head?, isBreak c := fun c hc => by
      rw [← List.find?_eq_head?_dropWhile_not] at hc
      exact List.find?_some hc
    have h := Divides.cons (.line htext hbreak) ih
    rwa [Segment.characters, List.cons_append, List.cons_append,
      List.takeWhile_append_dropWhile] at h
  | case4 cs ih =>
    have happend := splitBlock_append cs
    rcases splitBlock_cases cs with ⟨text, hfirst, htext⟩ | ⟨hrest, htext⟩
    · rw [hfirst] at happend ⊢
      have h := Divides.cons (.block htext) ih
      rwa [Segment.characters, List.cons_append, List.cons_append, happend] at h
    · rw [hrest] at ih happend ⊢
      have h := Divides.cons (.openBlock htext) ih
      rwa [Segment.characters, List.cons_append, List.cons_append, happend] at h
  | case5 c cs hquote hline hblock ih =>
    refine Divides.cons (.plain hquote ?_) ih
    rintro ⟨rfl, hhead | hhead⟩ <;> obtain ⟨ds, rfl⟩ := List.head?_eq_some_iff.mp hhead
    · exact hline ds rfl rfl
    · exact hblock ds rfl rfl

/-- The first segment of a text is the one that fits there. -/
theorem Segment.Leads.segments (h : s.Leads rest) :
    segments (s.characters ++ rest) = s :: segments rest := by
  cases h with
  | plain hquote hopen => exact segments_plain hquote hopen
  | quoted h =>
    rw [characters, List.cons_append, Comment.segments, h.splitQuoted]
  | @line text rest htext hbreak =>
    have htext : ∀ c ∈ text, (!isBreak c) = true := fun c hc => by simpa using htext c hc
    have htake : (text ++ rest).takeWhile (!isBreak ·) = text := by
      rw [List.takeWhile_append_of_pos htext]
      cases rest with
      | nil => exact List.append_nil text
      | cons b rest => simp [hbreak b rfl]
    have hdrop : (text ++ rest).dropWhile (!isBreak ·) = rest := by
      rw [List.dropWhile_append_of_pos htext]
      cases rest with
      | nil => rfl
      | cons b rest => simp [hbreak b rfl]
    rw [characters, List.cons_append, List.cons_append, Comment.segments, htake, hdrop]
  | @block text rest htext =>
    rw [characters, List.cons_append, List.cons_append, List.append_assoc]
    show Comment.segments ('/' :: '*' :: (text ++ '*' :: '/' :: rest)) = _
    rw [Comment.segments, splitBlock_close htext]
  | @openBlock text htext =>
    rw [characters, List.append_nil, Comment.segments.eq_4, splitBlock_open htext]

/-- A text has one division. -/
theorem divides_iff : Divides ss cs ↔ segments cs = ss := by
  constructor
  · intro h
    induction h with
    | nil => rw [segments]
    | cons hs _ ih => rw [hs.segments, ih]
  · rintro rfl
    exact divides_segments cs

/-! ## The blanked text -/

theorem StringRest.strip (h : StringRest text rest) :
    stripFrom .quoted (text ++ rest) = text ++ stripFrom .plain rest := by
  induction h with
  | close => simp [stripFrom, Mode.emit, Mode.next]
  | cut => rfl
  | cutEscape => rfl
  | escape _ ih => simp [stripFrom, Mode.emit, Mode.next, ih]
  | next hquote hback _ ih => simp [stripFrom, Mode.emit, Mode.next, hquote, hback, ih]

/-- A character outside strings and comments stays, and so does a slash that has waited. -/
theorem stripFrom_cons {c : Char} (hquote : c ≠ '"') (hopen : ¬ OpensComment c rest) :
    stripFrom .plain (c :: rest) = c :: stripFrom .plain rest := by
  by_cases hc : c = '/'
  · subst hc
    show stripFrom .slash rest = _
    cases rest with
    | nil => rfl
    | cons d rest =>
      have hd : ¬ (d = '/' ∨ d = '*') := by simpa [OpensComment] using hopen
      rw [stripFrom_no_opener hd]
      by_cases hslash : d = '/'
      · exact absurd (.inl hslash) hd
      · simp [stripFrom, Mode.emit, hslash]
  · exact stripFrom_cons_plain hc hquote rest

/-- The blanking of one segment. -/
theorem Segment.Leads.strip (h : s.Leads rest) :
    stripFrom .plain (s.characters ++ rest) = s.blanked ++ stripFrom .plain rest := by
  cases h with
  | plain hquote hopen => exact stripFrom_cons hquote hopen
  | quoted h => exact congrArg ('"' :: ·) h.strip
  | @line text rest htext hbreak =>
    have hrest : stripFrom .line rest = stripFrom .plain rest := by
      cases rest with
      | nil => rfl
      | cons b rest =>
        have hb : isBreak b := hbreak b rfl
        have hne := isBlank_ne (isBlank_of_isBreak hb)
        rw [stripFrom_line_break rest hb, stripFrom_cons_plain hne.1 hne.2.2]
    show stripFrom .slash ('/' :: (text ++ rest)) = _
    rw [stripFrom_opener (.inl rfl), ← hrest]
    exact congrArg (' ' :: ' ' :: ·) (stripFrom_line rest htext)
  | @block text rest htext =>
    show stripFrom .slash ('*' :: (text ++ ['*', '/'] ++ rest)) = _
    rw [stripFrom_opener (.inr rfl), List.append_assoc]
    exact congrArg (' ' :: ' ' :: ·) (stripFrom_block_close rest htext)
  | @openBlock text htext =>
    obtain ⟨m, hm, hstrip⟩ := stripFrom_block htext (.inl rfl)
    show stripFrom .slash ('*' :: (text ++ [])) = _
    rw [stripFrom_opener (.inr rfl)]
    refine congrArg (' ' :: ' ' :: ·) ((hstrip []).trans ?_)
    rcases hm with rfl | rfl <;> rfl

theorem Divides.strip (h : Divides ss cs) :
    stripFrom .plain cs = ss.flatMap Segment.blanked := by
  induction h with
  | nil => rfl
  | cons hs _ ih => rw [hs.strip, ih, List.flatMap_cons]

/-- The text without its comments: in its one division into segments the comments are blanked, and
no character changes its place.  Line breaks are where they were. -/
theorem strip_segments (text : String) :
    (∀ ss, Divides ss text.toList ↔ segments text.toList = ss) ∧
      (segments text.toList).flatMap Segment.characters = text.toList ∧
      (strip text).toList = (segments text.toList).flatMap Segment.blanked ∧
      (strip text).toList.length = text.toList.length ∧
      ∀ (i : Nat) (b : Char), isBreak b →
        ((strip text).toList[i]? = some b ↔ text.toList[i]? = some b) := by
  have hdivides := divides_segments text.toList
  refine ⟨fun ss => divides_iff, hdivides.characters, ?_, length_strip text, fun i b hb =>
    getElem?_blanked (forall₂_strip text) i hb⟩
  rw [toList_strip, hdivides.strip]

end Formulary.Comment

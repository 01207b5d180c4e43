import Formulary.Proofs.Document.Word
import Formulary.Proofs.Text.Blanking
import Formulary.Reader.Basic

/-!
# What is read of a written document

Once its comments are blanked and its line breaks are plain, a text of a document is a row of words
with blanks between them.

* `Words`: some words, each with blanks after it, before a given rest.
* `Lexeme.Sound`, `Document.sound`: what the words of a valid document may hold.
* `Document.Written.prepare`: the characters that are read.
-/

namespace Formulary

/-- Words, each with blanks after it, before a given rest. -/
inductive Words (tail : List Char) : List Lexeme → List Char → Prop where
  | nil : Words tail [] tail
  | cons {l : Lexeme} {ls : List Lexeme} {cs bs rest : List Char} : l.Spelled cs → bs ≠ [] →
      Blanks bs → Words tail ls rest → Words tail (l :: ls) (cs ++ (bs ++ rest))

/-- What a word holds where the preparation leaves it alone.  A slash on its own stands before a
blank. -/
def Lexeme.Sound : Lexeme → Prop
  | .mark c => c ≠ '/' ∧ c ≠ '"' ∧ c ≠ '\r'
  | .word text => text = "/" ∨ ∀ c ∈ text.toList, c ≠ '/' ∧ c ≠ '"' ∧ c ≠ '\r'
  | .quoted text => ∀ c ∈ text.toList, c ≠ '\r'

namespace Words

variable {tail : List Char} {ls ms : List Lexeme} {cs : List Char}

theorem append_iff : Words tail (ls ++ ms) cs ↔ ∃ mid, Words mid ls cs ∧ Words tail ms mid := by
  constructor
  · intro h
    induction ls generalizing cs with
    | nil => exact ⟨cs, .nil, h⟩
    | cons l ls ih =>
      cases h with
      | cons hl hne hbs h =>
        obtain ⟨mid, hls, hms⟩ := ih h
        exact ⟨mid, .cons hl hne hbs hls, hms⟩
  · rintro ⟨mid, h, h'⟩
    induction h with
    | nil => exact h'
    | cons hl hne hbs _ ih => exact .cons hl hne hbs ih

theorem exists_append (h : Words tail ls cs) : ∃ before, cs = before ++ tail := by
  induction h with
  | nil => exact ⟨[], rfl⟩
  | @cons _ _ cs bs _ _ _ _ _ ih =>
    obtain ⟨before, rfl⟩ := ih
    exact ⟨cs ++ (bs ++ before), by simp⟩

theorem append (h : Words tail ls cs) (ds : List Char) : Words (tail ++ ds) ls (cs ++ ds) := by
  induction h with
  | nil => exact .nil
  | cons hl hne hbs _ ih =>
    rw [List.append_assoc, List.append_assoc]
    exact .cons hl hne hbs ih

end Words

/-! ## Comments -/

theorem Lexeme.Spelled.strip {l : Lexeme} {cs gap : List Char} (h : l.Spelled cs) (hl : l.Sound)
    (hg : Gap gap) (rest : List Char) : ∃ bs, bs ≠ [] ∧ Blanks bs ∧
      Comment.stripFrom .plain (cs ++ (gap ++ rest)) =
        cs ++ (bs ++ Comment.stripFrom .plain rest) := by
  obtain @⟨c, filler, hc, hfiller⟩ := hg
  obtain ⟨bs, hbs, hstrip⟩ := hfiller.strip rest
  refine ⟨c :: bs, by simp, .cons hc hbs, ?_⟩
  have hgap : Comment.stripFrom .plain (c :: filler ++ rest) =
      c :: bs ++ Comment.stripFrom .plain rest := by
    have := Comment.stripFrom_plain (filler ++ rest) (by simp [isBlank_ne hc] : ∀ b ∈ [c], _)
    rw [hstrip] at this
    exact this
  cases h with
  | @mark d =>
    rw [← hgap]
    exact Comment.stripFrom_plain _ (by simpa using ⟨hl.1, hl.2.1⟩)
  | word =>
    rcases hl with rfl | hl
    · have := Comment.stripFrom_slash (filler ++ rest) (isBlank_ne hc)
      rwa [hstrip] at this
    · rw [← hgap]
      exact Comment.stripFrom_plain _ fun c hc => ⟨(hl c hc).1, (hl c hc).2.1⟩
  | quoted hs =>
    have := Comment.stripFrom_quoted (c :: filler ++ rest) hs
    rw [hgap] at this
    simpa [Comment.stripFrom, Comment.Mode.emit, Comment.Mode.next, Comment.Mode.afterPlain] using
      this

theorem WrittenLexemes.strip {ls : List Lexeme} {c : Char} {text : List Char}
    (h : WrittenLexemes (ls ++ [.mark c]) text) (hls : ∀ l ∈ ls, l.Sound)
    (hc : c ≠ '/' ∧ c ≠ '"') (rest : List Char) :
    Words (c :: Comment.stripFrom .plain rest) ls (Comment.stripFrom .plain (text ++ rest)) := by
  induction ls generalizing text with
  | nil =>
    cases h with
    | single hl =>
      cases hl
      rw [Comment.stripFrom_plain rest (by simpa using hc)]
      exact .nil
    | cons _ _ h => cases h
  | cons l ls ih =>
    rw [List.forall_mem_cons] at hls
    generalize hms : l :: ls ++ [.mark c] = ms at h
    cases h with
    | single => simp at hms
    | @cons l' ls' cs gap text hl hg h =>
      obtain ⟨rfl, rfl⟩ : l = l' ∧ ls ++ [.mark c] = ls' := by simpa using hms
      obtain ⟨bs, hne, hbs, hstrip⟩ := hl.strip hls.1 hg (text ++ rest)
      rw [List.append_assoc, List.append_assoc, hstrip]
      exact .cons hl hne hbs (ih h hls.2)

/-! ## Line breaks -/

theorem plainBreaks_cons (c : Char) (cs : List Char) :
    plainBreaks (c :: cs) = plainBreak c (cs.headD ' ') :: plainBreaks cs := by
  cases cs <;> rfl

theorem plainBreaks_append {cs : List Char} (h : ∀ c ∈ cs, c ≠ '\r') (ds : List Char) :
    plainBreaks (cs ++ ds) = cs ++ plainBreaks ds := by
  induction cs with
  | nil => rfl
  | cons c cs ih =>
    rw [List.forall_mem_cons] at h
    rw [List.cons_append, plainBreaks_cons, ih h.2, plainBreak, if_neg h.1, List.cons_append]

theorem plainBreaks_cons_of_ne {c : Char} (h : c ≠ '\r') (cs : List Char) :
    plainBreaks (c :: cs) = c :: plainBreaks cs := by
  rw [plainBreaks_cons, plainBreak, if_neg h]

theorem Blanks.plainBreaks {bs : List Char} (h : Blanks bs) (ds : List Char) :
    ∃ bs', bs'.length = bs.length ∧ Blanks bs' ∧
      plainBreaks (bs ++ ds) = bs' ++ Formulary.plainBreaks ds := by
  induction bs with
  | nil => exact ⟨[], rfl, .nil, rfl⟩
  | cons b bs ih =>
    rw [Blanks, List.forall_mem_cons] at h
    obtain ⟨bs', hlength, hbs', heq⟩ := ih h.2
    have hb : isBlank (plainBreak b ((bs ++ ds).headD ' ')) := by
      rw [plainBreak]
      split
      · split <;> decide
      · exact h.1
    refine ⟨_ :: bs', by simp [hlength], .cons hb hbs', ?_⟩
    rw [List.cons_append, plainBreaks_cons, heq]
    rfl

theorem SpelledChar.ne {c : Char} {spelled : List Char} (h : SpelledChar c spelled)
    (hc : c ≠ '\r') : ∀ b ∈ spelled, b ≠ '\r' := by
  cases h with
  | quote => simp
  | backslash => simp
  | tab => simp
  | plain => simpa using hc

theorem SpelledChars.ne {text spelled : List Char} (h : SpelledChars text spelled)
    (ht : ∀ c ∈ text, c ≠ '\r') : ∀ c ∈ spelled, c ≠ '\r' := by
  induction h with
  | nil => simp
  | cons hc _ ih =>
    rw [List.forall_mem_cons] at ht
    intro c hmem
    rcases List.mem_append.mp hmem with hmem | hmem
    · exact hc.ne ht.1 c hmem
    · exact ih ht.2 c hmem

theorem Lexeme.Spelled.ne {l : Lexeme} {cs : List Char} (h : l.Spelled cs) (hl : l.Sound) :
    ∀ c ∈ cs, c ≠ '\r' := by
  cases h with
  | mark => simpa using hl.2.2
  | word =>
    rcases hl with rfl | hl
    · simp
    · exact fun c hc => (hl c hc).2.2
  | quoted hs =>
    have := hs.ne hl
    intro c hc
    simp only [List.mem_cons, List.mem_append, List.not_mem_nil, or_false] at hc
    rcases hc with rfl | hc | rfl
    · decide
    · exact this c hc
    · decide

theorem Words.plainBreaks {tail cs : List Char} {ls : List Lexeme} (h : Words tail ls cs)
    (hls : ∀ l ∈ ls, l.Sound) : Words (plainBreaks tail) ls (plainBreaks cs) := by
  induction h with
  | nil => exact .nil
  | cons hl hne hbs _ ih =>
    rw [List.forall_mem_cons] at hls
    obtain ⟨bs', hlength, hbs', heq⟩ := hbs.plainBreaks _
    rw [plainBreaks_append (hl.ne hls.1), heq]
    refine .cons hl (fun hnil => hne ?_) hbs' (ih hls.2)
    rw [← List.length_eq_zero_iff, ← hlength, hnil]
    rfl

/-! ## The words of a document -/

theorem sound_of_isName {text : String} (h : isName text.toList) : (Lexeme.word text).Sound := by
  refine .inr fun c hc => ?_
  have hpart := isName_chars h c hc
  refine ⟨?_, ?_, ?_⟩ <;> rintro rfl <;> exact absurd hpart (by decide)

theorem sound_of_isNumber {text : String} (h : isNumber text.toList) :
    (Lexeme.word text).Sound := by
  refine .inr fun c hc => ?_
  rcases isNumber_chars h c hc with hdigit | rfl | rfl
  · refine ⟨?_, ?_, ?_⟩ <;> rintro rfl <;> exact absurd hdigit (by decide)
  · decide
  · decide

theorem sound_of_operator {operator : String} (h : defaultOperators.contains operator) :
    (Lexeme.word operator).Sound := by
  have hall : ∀ op ∈ defaultOperators, op = "/" ∨
      op.toList.all (fun c => c != '/' && c != '"' && c != '\r') := by decide
  refine (hall operator (List.contains_iff_mem.mp h)).imp_right fun hchars c hc => ?_
  simpa [and_assoc] using List.all_eq_true.mp hchars c hc

theorem commas_sound {parts : List (List Lexeme)} (h : ∀ part ∈ parts, ∀ l ∈ part, l.Sound) :
    ∀ l ∈ commas parts, l.Sound := by
  induction parts with
  | nil => simp [commas]
  | cons part parts ih =>
    rw [List.forall_mem_cons] at h
    cases parts with
    | nil => exact h.1
    | cons part' parts =>
      intro l hl
      simp only [commas, List.mem_append, List.mem_cons] at hl
      rcases hl with hl | rfl | hl
      · exact h.1 l hl
      · exact ⟨by decide, by decide, by decide⟩
      · exact ih h.2 l hl

theorem wrapped_sound {opening inside : List Lexeme} {c : Char} (ho : ∀ l ∈ opening, l.Sound)
    (hi : ∀ l ∈ inside, l.Sound) (hc : (Lexeme.mark c).Sound) :
    ∀ l ∈ opening ++ (inside ++ [.mark c]), l.Sound := by
  intro l hl
  simp only [List.mem_append, List.mem_singleton] at hl
  rcases hl with hl | hl | rfl
  · exact ho l hl
  · exact hi l hl
  · exact hc

theorem sound_pair {text : String} {c : Char} (ht : isName text.toList)
    (hc : (Lexeme.mark c).Sound) : ∀ l ∈ [Lexeme.word text, .mark c], l.Sound := by
  simp only [List.forall_mem_cons, List.not_mem_nil, false_implies, implies_true, and_true]
  exact ⟨sound_of_isName ht, hc⟩

theorem sound_single {c : Char} (hc : (Lexeme.mark c).Sound) : ∀ l ∈ [Lexeme.mark c], l.Sound := by
  simpa using hc

theorem section_sound {title : String} {ls : List Lexeme} (ht : isName title.toList)
    (hls : ∀ l ∈ ls, l.Sound) : ∀ l ∈ .mark '#' :: .word title :: .mark '{' :: ls, l.Sound := by
  simp only [List.forall_mem_cons]
  exact ⟨⟨by decide, by decide, by decide⟩, sound_of_isName ht, ⟨by decide, by decide, by decide⟩,
    hls⟩

mutual

theorem Term.sound : ∀ t : Term, t.valid defaultOperators → ∀ l ∈ t.lexemes, l.Sound
  | .number text, h => by
    rw [Term.valid] at h
    simpa [Term.lexemes] using sound_of_isNumber h
  | .string text, h => by
    rw [Term.valid, List.all_eq_true] at h
    simpa [Term.lexemes, Lexeme.Sound] using h
  | .name text, h => by
    rw [Term.valid] at h
    simpa [Term.lexemes] using sound_of_isName h
  | .call function arguments, h => by
    rw [Term.valid, Bool.and_eq_true] at h
    show ∀ l ∈ [.word function, .mark '('] ++ (commas (Formula.lexemeLists arguments) ++
      [.mark ')']), l.Sound
    exact wrapped_sound (sound_pair h.1 ⟨by decide, by decide, by decide⟩)
      (commas_sound (Formula.sound_lists arguments h.2)) ⟨by decide, by decide, by decide⟩
  | .paren inside, h => by
    rw [Term.valid] at h
    show ∀ l ∈ [.mark '('] ++ (inside.lexemes ++ [.mark ')']), l.Sound
    exact wrapped_sound (sound_single ⟨by decide, by decide, by decide⟩) (Formula.sound inside h)
      ⟨by decide, by decide, by decide⟩

theorem Formula.sound : ∀ f : Formula, f.valid defaultOperators → ∀ l ∈ f.lexemes, l.Sound
  | .term t, h => by
    rw [Formula.valid] at h
    exact Term.sound t h
  | .operate left operator right, h => by
    rw [Formula.valid, Bool.and_eq_true, Bool.and_eq_true] at h
    intro l hl
    rw [Formula.lexemes, List.mem_append, List.mem_cons] at hl
    rcases hl with hl | rfl | hl
    · exact Formula.sound left h.1.1 l hl
    · exact sound_of_operator h.1.2
    · exact Term.sound right h.2 l hl

theorem Formula.sound_lists : ∀ fs : List Formula, Formula.allValid defaultOperators fs →
    ∀ part ∈ Formula.lexemeLists fs, ∀ l ∈ part, l.Sound
  | [], _ => by simp [Formula.lexemeLists]
  | f :: fs, h => by
    rw [Formula.allValid, Bool.and_eq_true] at h
    rw [Formula.lexemeLists, List.forall_mem_cons]
    exact ⟨Formula.sound f h.1, Formula.sound_lists fs h.2⟩

end

mutual

theorem Entry.sound : ∀ v : Entry, v.valid defaultOperators → ∀ l ∈ v.lexemes, l.Sound
  | .sect title members, h => by
    rw [Entry.valid, Bool.and_eq_true] at h
    show ∀ l ∈ [.mark '#', .word title, .mark '{'] ++ (Binding.allLexemes members ++
      [.mark '}']), l.Sound
    exact wrapped_sound (section_sound h.1 (by simp)) (Binding.sound_all members h.2)
      ⟨by decide, by decide, by decide⟩
  | .array items, h => by
    rw [Entry.valid] at h
    show ∀ l ∈ [.mark '['] ++ (commas (Entry.lexemeLists items) ++ [.mark ']']), l.Sound
    exact wrapped_sound (sound_single ⟨by decide, by decide, by decide⟩)
      (commas_sound (Entry.sound_lists items h)) ⟨by decide, by decide, by decide⟩
  | .formula f, h => by
    rw [Entry.valid] at h
    exact Formula.sound f h

theorem Entry.sound_lists : ∀ vs : List Entry, Entry.allValid defaultOperators vs →
    ∀ part ∈ Entry.lexemeLists vs, ∀ l ∈ part, l.Sound
  | [], _ => by simp [Entry.lexemeLists]
  | v :: vs, h => by
    rw [Entry.allValid, Bool.and_eq_true] at h
    rw [Entry.lexemeLists, List.forall_mem_cons]
    exact ⟨Entry.sound v h.1, Entry.sound_lists vs h.2⟩

theorem Binding.sound : ∀ m : Binding, m.valid defaultOperators → ∀ l ∈ m.lexemes, l.Sound
  | .mk name v, h => by
    rw [Binding.valid, Bool.and_eq_true] at h
    show ∀ l ∈ [.word name, .mark '='] ++ (v.lexemes ++ [.mark ';']), l.Sound
    exact wrapped_sound (sound_pair h.1 ⟨by decide, by decide, by decide⟩) (Entry.sound v h.2)
      ⟨by decide, by decide, by decide⟩

theorem Binding.sound_all : ∀ ms : List Binding, Binding.allValid defaultOperators ms →
    ∀ l ∈ Binding.allLexemes ms, l.Sound
  | [], _ => by simp [Binding.allLexemes]
  | m :: ms, h => by
    rw [Binding.allValid, Bool.and_eq_true] at h
    intro l hl
    rw [Binding.allLexemes, List.mem_append] at hl
    rcases hl with hl | hl
    · exact Binding.sound m h.1 l hl
    · exact Binding.sound_all ms h.2 l hl

end

/-! ## Written documents -/

theorem spelled_writeChar (c : Char) : SpelledChar c (writeChar c) := by
  rw [writeChar]
  split
  · next h =>
    rcases h with rfl | rfl
    · exact .quote
    · exact .backslash
  · next h => exact .plain (fun hc => h (.inl hc)) (fun hc => h (.inr hc))

theorem spelled_flatMap (cs : List Char) : SpelledChars cs (cs.flatMap writeChar) := by
  induction cs with
  | nil => exact .nil
  | cons c cs ih => exact .cons (spelled_writeChar c) ih

theorem Lexeme.spelled_write (l : Lexeme) : l.Spelled l.write := by
  cases l with
  | mark c => exact .mark
  | word text => exact .word
  | quoted text => exact .quoted (spelled_flatMap text.toList)

theorem writtenLexemes (l : Lexeme) (ls : List Lexeme) :
    WrittenLexemes (l :: ls) (writeLexemes (l :: ls)) := by
  induction ls generalizing l with
  | nil => exact .single l.spelled_write
  | cons l' ls ih =>
    exact .cons l.spelled_write (.mk (c := ' ') rfl .nil) (ih l')

/-- The text that is written for a document is one of its texts, also after any filler. -/
theorem Document.written_write (d : Document) {before : List Char} (h : Filler before) :
    d.Written (before ++ d.write.toList) := by
  have hwords := writtenLexemes (.mark '#')
    (.word d.title :: .mark '{' :: (Binding.allLexemes d.members ++ [.mark '}']))
  have hwritten := Document.Written.plain (d := d) h hwords .nil
  rw [List.append_nil] at hwritten
  rw [write, String.toList_ofList]
  exact hwritten

/-! ## The text of a document -/

/-- The words of a document before its last brace. -/
def Document.opening (d : Document) : List Lexeme :=
  .mark '#' :: .word d.title :: .mark '{' :: Binding.allLexemes d.members

theorem Document.lexemes_eq (d : Document) : d.lexemes = d.opening ++ [.mark '}'] := rfl

theorem Document.opening_sound {d : Document} (h : d.valid defaultOperators) :
    ∀ l ∈ d.opening, l.Sound := by
  rw [Document.valid, Bool.and_eq_true] at h
  exact section_sound h.1 (Binding.sound_all d.members h.2)

theorem endsWithPoint_eq (cs : List Char) {bs : List Char} {c : Char} (hc : isSpace c = false)
    (hbs : Blanks bs) : endsWithPoint (cs ++ c :: bs) = (c == '.') := by
  have hfind : bs.reverse.find? (!isSpace ·) = none := by
    rw [List.find?_eq_none]
    intro b hb
    simpa using isSpace_of_isBlank (hbs b (List.mem_reverse.mp hb))
  rw [endsWithPoint, List.reverse_append, List.reverse_cons, List.append_assoc, List.find?_append,
    hfind]
  simp [hc]

theorem prepare_eq (source : String) : (prepare source).1 =
    plainBreaks (if endsWithPoint (Comment.strip source).toList then (Comment.strip source).toList
      else (Comment.strip source).toList ++ ['.']) := by
  rw [prepare]
  split <;> rfl

/-- The words of a document with the final point, before any line break is made plain. -/
theorem Document.Written.strip {d : Document} {text : List Char} (h : d.Written text)
    (hd : d.valid defaultOperators) : ∃ before w after after' cs, Blanks before ∧ Blanks after ∧
      Blanks after' ∧ Words ('}' :: (after ++ '.' :: after')) d.opening w ∧ cs = before ++ w ∧
      (Formulary.prepare (String.ofList text)).1 = Formulary.plainBreaks cs := by
  have hsound := opening_sound hd
  cases h with
  | @plain before text after hbefore htext hafter =>
    obtain ⟨bs, hbs, hstrip⟩ := hbefore.strip (text ++ after)
    have hwords := htext.strip hsound (by decide) after
    have hend := hafter.strip_end
    obtain ⟨pre, hpre⟩ := hwords.exists_append
    refine ⟨bs, _, _, [], _, hbs, hend, .nil, hwords.append ['.'], rfl, ?_⟩
    have hpoint := endsWithPoint_eq (bs ++ pre) (c := '}') (by decide) hend
    rw [prepare_eq, Comment.toList_strip, String.toList_ofList, hstrip, hpre, ← List.append_assoc,
      hpoint]
    simp
  | @pointed before text after hbefore htext hafter =>
    obtain ⟨bs, hbs, hstrip⟩ := hbefore.strip (text ++ after)
    have hsound' : ∀ l ∈ d.opening ++ [.mark '}'], l.Sound := by
      intro l hl
      rcases List.mem_append.mp hl with hl | hl
      · exact hsound l hl
      · rw [List.mem_singleton.mp hl]
        exact ⟨by decide, by decide, by decide⟩
    have hwords := htext.strip hsound' (by decide) after
    have hend := hafter.strip_end
    obtain ⟨pre, hpre⟩ := hwords.exists_append
    rw [lexemes_eq] at hwords
    obtain ⟨mid, hopening, hmark⟩ := Words.append_iff.mp hwords
    cases hmark with
    | cons hl _ hbs' hnil =>
      cases hl
      cases hnil
      refine ⟨bs, _, _, _, _, hbs, hbs', hend, hopening, rfl, ?_⟩
      have hpoint := endsWithPoint_eq (bs ++ pre) (c := '.') (by decide) hend
      rw [prepare_eq, Comment.toList_strip, String.toList_ofList, hstrip, hpre, ← List.append_assoc,
        hpoint]
      simp

/-- What is read of a text of a document: its words up to the last brace, the brace, and the final
point. -/
theorem Document.Written.prepare {d : Document} {text : List Char} (h : d.Written text)
    (hd : d.valid defaultOperators) : ∃ before w after after', Blanks before ∧ Blanks after ∧
      Blanks after' ∧ Words ('}' :: (after ++ '.' :: after')) d.opening w ∧
      (Formulary.prepare (String.ofList text)).1 = before ++ w := by
  obtain ⟨before, w, after, after', _, hb, ha, ha', hw, rfl, hprepare⟩ := h.strip hd
  obtain ⟨before', -, hb', hbefore⟩ := hb.plainBreaks w
  obtain ⟨after₁, -, hafter₁, ha₁⟩ := ha.plainBreaks ('.' :: after')
  obtain ⟨after₂, -, hafter₂, ha₂⟩ := ha'.plainBreaks []
  refine ⟨before', Formulary.plainBreaks w, after₁, after₂, hb', hafter₁, hafter₂, ?_, ?_⟩
  · have htail : Formulary.plainBreaks ('}' :: (after ++ '.' :: after')) =
        '}' :: (after₁ ++ '.' :: after₂) := by
      rw [List.append_nil] at ha₂
      rw [plainBreaks_cons_of_ne (by decide), ha₁, plainBreaks_cons_of_ne (by decide), ha₂]
      exact congrArg (fun ds => '}' :: (after₁ ++ '.' :: ds)) (List.append_nil after₂)
    rw [← htail]
    exact hw.plainBreaks (opening_sound hd)
  · rw [hprepare, hbefore]

end Formulary

import Formulary.Proofs.Document.Words
import Formulary.Proofs.Reader.Stage

/-!
# Reading words

The reading over nests goes through a text word by word, each with the blanks after it.

* `Nested.Reads`: some words lead to a state of which something holds.
* `Nested.ExpectsTerm`, `Nested.Settled`: a state before a term, and one after an operand.
* `ExpectsTerm.name`, `ExpectsTerm.number`, `ExpectsTerm.string`, `Settled.operator`: single words.
-/

namespace Formulary

namespace Nested

variable {s s' : Nested} {n : Nest} {t : String} {b : Bool} {p : Phase} {m : Option String}
  {c : Char} {cs : List Char} {ls ms : List Lexeme} {P Q : Nested → Prop}

/-! ## Runs -/

theorem read_append (ops : List String) (s : Nested) (cs ds : List Char) :
    s.read ops (cs ++ ds) = (s.read ops cs).bind (·.read ops ds) := by
  induction cs generalizing s with
  | nil => rfl
  | cons c cs ih =>
    rw [List.cons_append, read, read]
    cases s.accept ops c with
    | none => rfl
    | some s' => exact ih s'

theorem accept_step (hc : isBlank c = false) (hs : s.step defaultOperators c = some s') :
    s.accept defaultOperators c = some { s' with afterBlank := false } := by
  rw [accept, hc, Bool.and_false, hs]
  rfl

theorem read_blanks (hp : s.phase.inString = false) (hcs : Blanks cs) (hne : cs ≠ []) :
    s.read defaultOperators cs = some { s with afterBlank := true } := by
  induction cs generalizing s with
  | nil => exact absurd rfl hne
  | cons c cs ih =>
    rw [Blanks, List.forall_mem_cons] at hcs
    have haccept : s.accept defaultOperators c = some { s with afterBlank := true } := by
      rw [accept, hp, hcs.1]
      rfl
    rw [read, haccept, Option.bind_some]
    cases cs with
    | nil => rfl
    | cons c' cs => exact ih hp hcs.2 (by simp)

/-- Blanks that need not be there. -/
theorem read_filler (hp : s.phase.inString = false) (hcs : Blanks cs) :
    ∃ b, s.read defaultOperators cs = some { s with afterBlank := b } := by
  cases cs with
  | nil => exact ⟨s.afterBlank, rfl⟩
  | cons c cs => exact ⟨true, read_blanks hp hcs (by simp)⟩

/-- Some words lead to a state of which something holds. -/
def Reads (s : Nested) (ls : List Lexeme) (Q : Nested → Prop) : Prop :=
  ∀ tail cs, Words tail ls cs →
    ∃ s', Q s' ∧ s.read defaultOperators cs = s'.read defaultOperators tail

theorem Reads.nil (h : Q s) : s.Reads [] Q := by
  intro tail cs hw
  cases hw
  exact ⟨s, h, rfl⟩

theorem Reads.append (h : s.Reads ls P) (h' : ∀ s', P s' → s'.Reads ms Q) :
    s.Reads (ls ++ ms) Q := by
  intro tail cs hw
  obtain ⟨mid, hls, hms⟩ := Words.append_iff.mp hw
  obtain ⟨s₁, hp, hread⟩ := h mid cs hls
  obtain ⟨s₂, hq, hread'⟩ := h' s₁ hp tail mid hms
  exact ⟨s₂, hq, hread.trans hread'⟩

theorem Reads.cons {l : Lexeme} (h : s.Reads [l] P) (h' : ∀ s', P s' → s'.Reads ms Q) :
    s.Reads (l :: ms) Q := h.append h'

theorem Reads.imp (h : s.Reads ls P) (h' : ∀ s', P s' → Q s') : s.Reads ls Q := by
  intro tail cs hw
  obtain ⟨s₁, hp, hread⟩ := h tail cs hw
  exact ⟨s₁, h' s₁ hp, hread⟩

/-- A word that is read to its end, with the blanks after it. -/
theorem Reads.single {l : Lexeme} (h : ∀ cs, l.Spelled cs → ∃ s',
    s.read defaultOperators cs = some s' ∧ s'.phase.inString = false ∧
      Q { s' with afterBlank := true }) : s.Reads [l] Q := by
  intro tail cs hw
  cases hw with
  | cons hl hne hbs hnil =>
    cases hnil
    obtain ⟨s', hread, hp, hq⟩ := h _ hl
    refine ⟨_, hq, ?_⟩
    rw [read_append, hread, Option.bind_some, read_append, read_blanks hp hbs hne,
      Option.bind_some]

theorem Reads.mark {r : Nested} (hc : isBlank c = false)
    (hs : s.step defaultOperators c = some r) (hp : r.phase.inString = false)
    (hq : Q { r with afterBlank := true }) : s.Reads [.mark c] Q := by
  refine .single fun cs hcs => ?_
  cases hcs
  refine ⟨{ r with afterBlank := false }, ?_, hp, hq⟩
  rw [read, accept_step hc hs]
  rfl

/-- A word of which every character but the first extends the token. -/
theorem read_token {more : List Char} (h : ∀ c ∈ more, isBlank c = false ∧ ∀ t,
    step defaultOperators ⟨p, n, false, t, m⟩ c = some ⟨p, n, false, t.push c, m⟩) :
    read defaultOperators ⟨p, n, false, t, m⟩ more =
      some ⟨p, n, false, more.foldl String.push t, m⟩ := by
  induction more generalizing t with
  | nil => rfl
  | cons c more ih =>
    rw [List.forall_mem_cons] at h
    rw [read, accept_step h.1.1 (h.1.2 t)]
    exact ih h.2

theorem foldl_push_eq {u : String} (h : u.toList = t.toList ++ cs) :
    cs.foldl String.push t = u := by
  rw [← String.toList_inj, Comment.toList_foldl_push, h]

/-! ## Before a term -/

/-- The state is where a term belongs in the innermost row of a nest. -/
def ExpectsTerm (s : Nested) (n : Nest) : Prop :=
  ∀ c, isTermStart c → ∃ s₁ : Nested, s₁.nest = n ∧ s₁.memberName = none ∧
    s.step defaultOperators c = s₁.beginTerm c

def Settled (s : Nested) (n : Nest) : Prop :=
  s.phase.endsOperand ∧ s.afterBlank = true ∧ s.memberName = none ∧ s.flushOperand.nest = n

theorem ExpectsTerm.accept (h : s.ExpectsTerm n) (hc : isTermStart c)
    (hbegin : ∀ s₁ : Nested, s₁.beginTerm c = some ((s₁.beginToken c).enter p)) :
    s.accept defaultOperators c = some ⟨p, n, false, String.singleton c, none⟩ := by
  obtain ⟨s₁, rfl, hm, hstep⟩ := h c hc
  rw [accept_step (isBlank_of_isTermStart hc) (hstep.trans (hbegin s₁)), ← hm]
  rfl

/-! ## Names -/

theorem beginTerm_name (hc : isNameStart c) (s : Nested) :
    s.beginTerm c = some ((s.beginToken c).enter .identifier) := by
  obtain ⟨h₁, h₂, h₃, h₄⟩ := isNameStart_ne hc
  rw [beginTerm, if_neg h₁, if_neg h₂, if_neg h₃, h₄, if_neg Bool.false_ne_true, if_pos hc]

/-- A name goes on with every character that it may have. -/
theorem read_name {text : String} {c : Char} {more : List Char} (htext : text.toList = c :: more)
    (h : ∀ d ∈ more, isNamePart d)
    (hp : p = .identifier ∨ p = .sectionTitle ∨ p = .memberName) :
    read defaultOperators ⟨p, n, false, String.singleton c, m⟩ more =
      some ⟨p, n, false, text, m⟩ := by
  rw [read_token fun d hd => ⟨isBlank_of_isNamePart (h d hd), fun t => ?_⟩,
    foldl_push_eq (u := text) (by rw [htext, String.toList_singleton]; rfl)]
  have hpart := h d hd
  rcases hp with rfl | rfl | rfl <;> simp [step, hpart, extendToken]

theorem ExpectsTerm.name {text : String} (h : s.ExpectsTerm n) (ht : isName text.toList) :
    s.Reads [.word text] (· = ⟨.identifier, n, true, text, none⟩) := by
  refine .single fun cs hcs => ?_
  cases hcs
  cases htext : text.toList with
  | nil => rw [htext] at ht; cases ht
  | cons c more =>
    rw [htext, isName, Bool.and_eq_true, List.all_eq_true] at ht
    refine ⟨⟨.identifier, n, false, text, none⟩, ?_, rfl, rfl⟩
    rw [read, h.accept (isTermStart_of_isNameStart ht.1) (beginTerm_name ht.1), Option.bind_some,
      read_name htext ht.2 (.inl rfl)]

/-! ## Numbers -/

theorem beginTerm_digit (hc : c.isDigit) (s : Nested) :
    s.beginTerm c = some ((s.beginToken c).enter .number) := by
  obtain ⟨h₁, h₂, h₃⟩ := isDigit_ne hc
  rw [beginTerm, if_neg h₁, if_neg h₂, if_neg h₃, if_pos hc]

theorem read_digits (hp : p = .number ∨ p = .numberFraction) (hcs : ∀ c ∈ cs, c.isDigit) :
    read defaultOperators ⟨p, n, false, t, none⟩ cs =
      some ⟨p, n, false, cs.foldl String.push t, none⟩ := by
  refine read_token fun d hd => ⟨isBlank_of_isNamePart (isNamePart_of_isDigit (hcs d hd)),
    fun t => ?_⟩
  have hdigit := hcs d hd
  rcases hp with rfl | rfl <;> simp [step, hdigit, extendToken]

theorem ExpectsTerm.read_whole (h : s.ExpectsTerm n) (hcs : Whole cs) :
    s.read defaultOperators cs = some ⟨.number, n, false, String.ofList cs, none⟩ := by
  obtain ⟨sign, ds, hsign, ⟨hne, hds⟩, rfl⟩ := hcs
  obtain ⟨d, ds, rfl⟩ : ∃ d ds', ds = d :: ds' := List.exists_cons_of_ne_nil hne
  rw [List.forall_mem_cons] at hds
  have hblank : isBlank d = false := isBlank_of_isNamePart (isNamePart_of_isDigit hds.1)
  rcases hsign with rfl | rfl
  · rw [List.nil_append, read, h.accept (isTermStart_of_isDigit hds.1) (beginTerm_digit hds.1),
      Option.bind_some, read_digits (.inl rfl) hds.2, foldl_push_eq (u := String.ofList (d :: ds))]
    simp
  · have hminus := h.accept (c := '-') (p := .minus) rfl fun s₁ => rfl
    have hdigit : step defaultOperators ⟨.minus, n, false, "-", none⟩ d =
        some ⟨.number, n, false, "-".push d, none⟩ := by
      simp [step, hds.1, extendToken, enter]
    rw [List.singleton_append, read, hminus, Option.bind_some, read,
      show String.singleton '-' = "-" from rfl, accept_step hblank hdigit, Option.bind_some,
      read_digits (.inl rfl) hds.2, foldl_push_eq (u := String.ofList ('-' :: d :: ds))]
    simp [String.toList_push]

theorem ExpectsTerm.read_pointed (h : s.ExpectsTerm n) (hcs : Pointed cs) :
    s.read defaultOperators cs = some ⟨.numberPoint, n, false, String.ofList cs, none⟩ := by
  obtain ⟨ds, hds, rfl⟩ := hcs
  have hpoint : step defaultOperators ⟨.number, n, false, String.ofList ds, none⟩ '.' =
      some ⟨.numberPoint, n, false, (String.ofList ds).push '.', none⟩ := rfl
  rw [read_append, h.read_whole hds, Option.bind_some, read, accept_step rfl hpoint,
    Option.bind_some, read]
  congr 2
  rw [← String.toList_inj]
  simp [String.toList_push]

theorem ExpectsTerm.read_fractional (h : s.ExpectsTerm n) (hcs : Fractional cs) :
    s.read defaultOperators cs = some ⟨.numberFraction, n, false, String.ofList cs, none⟩ := by
  obtain ⟨ds, es, hds, ⟨hne, hes⟩, rfl⟩ := hcs
  obtain ⟨e, es, rfl⟩ : ∃ e es', es = e :: es' := List.exists_cons_of_ne_nil hne
  rw [List.forall_mem_cons] at hes
  have hblank : isBlank e = false := isBlank_of_isNamePart (isNamePart_of_isDigit hes.1)
  have hdigit : step defaultOperators ⟨.numberPoint, n, false, String.ofList ds, none⟩ e =
      some ⟨.numberFraction, n, false, (String.ofList ds).push e, none⟩ := by
    simp [step, hes.1, extendToken, enter]
  rw [read_append, h.read_pointed hds, Option.bind_some, read, accept_step hblank hdigit,
    Option.bind_some]
  have hread := read_digits (n := n) (t := (String.ofList ds).push e) (.inr rfl) hes.2
  rw [foldl_push_eq (u := String.ofList (ds ++ e :: es))] at hread
  · exact hread
  · simp [String.toList_push]

theorem ExpectsTerm.number {text : String} (h : s.ExpectsTerm n) (ht : isNumber text.toList) :
    s.Reads [.word text] (Settled · (n.addLeaf .number text)) := by
  refine .single fun cs hcs => ?_
  cases hcs
  rcases isNumber_iff.mp ht with ht | ht
  · exact ⟨_, h.read_whole ht, rfl, rfl, rfl, rfl, by rw [String.ofList_toList]; rfl⟩
  · exact ⟨_, h.read_fractional ht, rfl, rfl, rfl, rfl, by rw [String.ofList_toList]; rfl⟩

/-! ## Strings -/

theorem read_chars {text spelled : List Char} (h : SpelledChars text spelled) :
    read defaultOperators ⟨.string, n, false, t, none⟩ spelled =
      some ⟨.string, n, false, text.foldl String.push t, none⟩ := by
  have hstep : ∀ {c : Char} {s s' : Nested}, s.phase.inString = true →
      s.step defaultOperators c = some s' →
      s.accept defaultOperators c = some { s' with afterBlank := false } := by
    intro c s s' hp hs
    rw [Nested.accept, hp, hs]
    rfl
  induction h generalizing t with
  | nil => rfl
  | @cons c cs spelled rest hc _ ih =>
    have hread : read defaultOperators ⟨.string, n, false, t, none⟩ spelled =
        some ⟨.string, n, false, t.push c, none⟩ := by
      cases hc with
      | quote => rfl
      | backslash => rfl
      | tab => rfl
      | plain h₁ h₂ =>
        have hextend : step defaultOperators ⟨.string, n, false, t, none⟩ c =
            some ⟨.string, n, false, t.push c, none⟩ := by
          simp [step, h₁, h₂, extendToken]
        rw [read, hstep rfl hextend]
        rfl
    rw [read_append, hread]
    exact ih

theorem ExpectsTerm.string {text : String} (h : s.ExpectsTerm n) :
    s.Reads [.quoted text] (Settled · (n.addLeaf .string text)) := by
  refine .single fun cs hcs => ?_
  cases hcs with
  | @quoted _ spelled hspelled =>
    obtain ⟨s₁, rfl, hm, hstep⟩ := h '"' rfl
    have hquote : s.accept defaultOperators '"' = some ⟨.string, s₁.nest, false, "", none⟩ := by
      rw [accept_step rfl (hstep.trans rfl), ← hm]
    have hend : Nested.accept defaultOperators ⟨.string, s₁.nest, false, text, none⟩ '"' =
        some ⟨.stringEnd, s₁.nest.addLeaf .string text, false, "", none⟩ := rfl
    refine ⟨⟨.stringEnd, s₁.nest.addLeaf .string text, false, "", none⟩, ?_, rfl, rfl, rfl, rfl,
      rfl⟩
    rw [read, hquote, Option.bind_some, read_append, read_chars hspelled,
      foldl_push_eq (u := text) (by rfl), Option.bind_some, read, hend]
    rfl

/-! ## Operators -/

theorem Settled.accept_operator (h : s.Settled n) (hb : isBlank c = false) (hparen : c ≠ '(')
    (hc : (defaultOperators.any fun op => [c].isPrefixOf op.toList) = true) :
    s.accept defaultOperators c = some ⟨.operator, n, false, String.singleton c, none⟩ := by
  obtain ⟨hp, hblank, hm, rfl⟩ := h
  obtain ⟨p, n, b, token, m⟩ := s
  obtain rfl : b = true := hblank
  obtain rfl : m = none := hm
  refine (accept_step hb (?_ : _ = some ⟨.operator, (flushOperand ⟨p, n, true, token, none⟩).nest,
    true, String.singleton c, none⟩)).trans rfl
  cases p with
  | number => simp [step, afterToken, hc, flush, flushOperand, beginToken, enter]
  | numberFraction => simp [step, afterToken, hc, flush, flushOperand, beginToken, enter]
  | identifier => simp [step, afterToken, hc, hparen, flush, flushOperand, beginToken, enter]
  | parenClose => simp [step, afterTerm, hc, flushOperand, beginToken, enter]
  | stringEnd => simp [step, afterTerm, hc, flushOperand, beginToken, enter]
  | _ => cases hp

theorem read_operator {operator : String} (ho : operator ∈ defaultOperators)
    {before more : List Char} (h : operator.toList = before ++ more)
    (hb : ∀ c ∈ more, isBlank c = false) :
    read defaultOperators ⟨.operator, n, false, String.ofList before, none⟩ more =
      some ⟨.operator, n, false, operator, none⟩ := by
  induction more generalizing before with
  | nil =>
    rw [List.append_nil] at h
    rw [← h, String.ofList_toList]
    rfl
  | cons c more ih =>
    rw [List.forall_mem_cons] at hb
    have hextends : (defaultOperators.any fun op =>
        (before ++ [c]).isPrefixOf op.toList) = true := by
      rw [List.any_eq_true]
      exact ⟨operator, ho, List.isPrefixOf_iff_prefix.mpr ⟨more, by rw [h]; simp⟩⟩
    have hstep : step defaultOperators ⟨.operator, n, false, String.ofList before, none⟩ c =
        some ⟨.operator, n, false, String.ofList (before ++ [c]), none⟩ := by
      simp only [step, String.toList_ofList, hextends, Bool.not_false, Bool.and_self, if_true,
        extendToken, Option.some.injEq, Nested.mk.injEq, true_and, and_true]
      rw [← String.toList_inj]
      simp [String.toList_push]
    rw [read, accept_step hb.1 hstep]
    exact ih (by rw [h]; simp) hb.2

/-- An operator leads to the state before a term. -/
theorem Settled.operator {operator : String} (h : s.Settled n)
    (ho : defaultOperators.contains operator) :
    s.Reads [.word operator] (ExpectsTerm · (n.addLeaf .operator operator)) := by
  have hmem := List.contains_iff_mem.mp ho
  have hchars : ∀ op ∈ defaultOperators, op.toList ≠ [] ∧
      op.toList.all (fun c => !isBlank c && c != '(') := by decide
  obtain ⟨hne, hall⟩ := hchars operator hmem
  have hcs : ∀ c ∈ operator.toList, isBlank c = false ∧ c ≠ '(' := fun c hc => by
    simpa using List.all_eq_true.mp hall c hc
  obtain ⟨c, more, htext⟩ := List.exists_cons_of_ne_nil hne
  rw [htext, List.forall_mem_cons] at hcs
  refine .single fun cs hspelled => ?_
  cases hspelled
  have hstarts : (defaultOperators.any fun op => [c].isPrefixOf op.toList) = true := by
    rw [List.any_eq_true]
    exact ⟨operator, hmem, List.isPrefixOf_iff_prefix.mpr ⟨more, by rw [htext]; rfl⟩⟩
  refine ⟨⟨.operator, n, false, operator, none⟩, ?_, rfl, ?_⟩
  · rw [htext, read, h.accept_operator hcs.1.1 hcs.1.2 hstarts, Option.bind_some,
      show String.singleton c = String.ofList [c] from rfl,
      read_operator hmem htext fun d hd => (hcs.2 d hd).1]
  · intro d hd
    refine ⟨flush ⟨.operator, n, true, operator, none⟩ .operator, rfl, rfl, ?_⟩
    simp [step, startTerm, hd, placeTerm, hmem]

end Nested

end Formulary

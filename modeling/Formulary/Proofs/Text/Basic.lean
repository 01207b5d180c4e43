import Formulary.Text.Basic

/-!
# Facts about characters and positions

* `isBlank_of_isNamePart`: no character of a name is a blank.
* `isNameStart_ne`: a character that begins a name begins no other term.
* `split_eq_splitOn`: a cut is the one that the library knows.
* `Position.span_covers`: the span of a position covers its character, byte for byte.
* `lineAt`, `columnAt`: line and column of an offset, read off the text.  Lines end with a line
  feed, or with a carriage return that no line feed follows.
* `literalAt`: how far a string literal has been read, from its opening quote on.
-/

namespace Formulary

/-! ## Classes of characters -/

section CharClass

variable {c : Char}

theorem isNamePart_of_isNameStart (h : isNameStart c) : isNamePart c := by simp [isNamePart, h]

theorem isNamePart_of_isDigit (h : c.isDigit) : isNamePart c := by simp [isNamePart, h]

theorem isTermStart_of_isNameStart (h : isNameStart c) : isTermStart c := by simp [isTermStart, h]

theorem isTermStart_of_isDigit (h : c.isDigit) : isTermStart c := by simp [isTermStart, h]

theorem isBlank_of_isNamePart (h : isNamePart c) : isBlank c = false := by
  rw [← Bool.not_eq_true]
  intro hb
  simp only [isBlank, Bool.or_eq_true, decide_eq_true_eq] at hb
  rcases hb with ((rfl | rfl) | rfl) | rfl <;> exact absurd h (by decide)

theorem isDigit_of_isNameStart (h : isNameStart c) : c.isDigit = false := by
  rw [← Bool.not_eq_true]
  intro hd
  have hdigit : 48 ≤ c.toNat ∧ c.toNat ≤ 57 := Char.isDigit_iff_toNat.mp hd
  rw [isNameStart, Bool.or_eq_true] at h
  rcases h with h | h
  · have halpha : (decide (c.val ≥ 'A'.val ∧ c.val ≤ 'Z'.val) ||
        (decide (c.val ≥ 'a'.val) && decide (c.val ≤ 'z'.val))) = true := h
    simp only [Bool.or_eq_true, Bool.and_eq_true, decide_eq_true_eq, ge_iff_le,
      UInt32.le_iff_toNat_le] at halpha
    change 65 ≤ c.toNat ∧ c.toNat ≤ 90 ∨ 97 ≤ c.toNat ∧ c.toNat ≤ 122 at halpha
    omega
  · rw [decide_eq_true_eq] at h
    subst h
    exact absurd hd (by decide)

theorem isSpace_of_isDigit (h : c.isDigit) : isSpace c = false := by
  have hdigit : 48 ≤ c.toNat ∧ c.toNat ≤ 57 := Char.isDigit_iff_toNat.mp h
  simp only [isSpace, Bool.or_eq_false_iff, Bool.and_eq_false_iff, decide_eq_false_iff_not]
  omega

theorem isNameStart_ne (h : isNameStart c) : c ≠ '(' ∧ c ≠ '"' ∧ c ≠ '-' ∧ c.isDigit = false := by
  refine ⟨?_, ?_, ?_, isDigit_of_isNameStart h⟩ <;> rintro rfl <;> exact absurd h (by decide)

theorem isDigit_ne (h : c.isDigit) : c ≠ '(' ∧ c ≠ '"' ∧ c ≠ '-' := by
  refine ⟨?_, ?_, ?_⟩ <;> rintro rfl <;> exact absurd h (by decide)

/-- A character that begins a term is none of the marks of sections and arrays. -/
theorem isTermStart_ne (h : isTermStart c) : c ≠ '[' ∧ c ≠ ']' ∧ c ≠ '#' ∧ c ≠ ')' := by
  refine ⟨?_, ?_, ?_, ?_⟩ <;> rintro rfl <;> exact absurd h (by decide)

theorem isBlank_of_isTermStart (h : isTermStart c) : isBlank c = false := by
  rw [← Bool.not_eq_true]
  intro hb
  simp only [isBlank, Bool.or_eq_true, decide_eq_true_eq] at hb
  rcases hb with ((rfl | rfl) | rfl) | rfl <;> exact absurd h (by decide)

end CharClass

/-! ## Pieces -/

section Pieces

variable {sep : Char} {cs piece : List Char}

/-- A first character other than the separator goes to the first piece. -/
theorem split_cons_eq (sep c : Char) (cs : List Char) : split sep (c :: cs) =
    if c = sep then [] :: split sep cs else (split sep cs).modifyHead (c :: ·) := by
  obtain ⟨piece, pieces, hpieces⟩ := List.exists_cons_of_ne_nil (split_ne_nil sep cs)
  rw [split_cons, hpieces]
  rfl

theorem split_eq_splitOn (sep : Char) (cs : List Char) : split sep cs = cs.splitOn sep := by
  induction cs with
  | nil => rfl
  | cons c cs ih => simp [split_cons_eq, List.splitOn_cons_eq_if_modifyHead, ih]

/-- No piece holds the separator. -/
theorem not_mem_of_mem_split (h : piece ∈ split sep cs) : sep ∉ piece := by
  induction cs generalizing piece with
  | nil =>
    rw [List.mem_singleton.mp h]
    exact List.not_mem_nil
  | cons c cs ih =>
    rw [split_cons_eq] at h
    split at h
    · rcases List.mem_cons.mp h with rfl | h
      · exact List.not_mem_nil
      · exact ih h
    · next hc =>
      obtain ⟨first, pieces, hpieces⟩ := List.exists_cons_of_ne_nil (split_ne_nil sep cs)
      rw [hpieces] at h ih
      rcases List.mem_cons.mp h with rfl | h
      · exact List.not_mem_cons_of_ne_of_not_mem (Ne.symm hc) (ih List.mem_cons_self)
      · exact ih (List.mem_cons_of_mem _ h)

theorem split_map {f : Char → Char} (hf : ∀ c, f c = sep ↔ c = sep) (cs : List Char) :
    split sep (cs.map f) = (split sep cs).map (List.map f) := by
  induction cs with
  | nil => rfl
  | cons c cs ih =>
    obtain ⟨piece, pieces, hpieces⟩ := List.exists_cons_of_ne_nil (split_ne_nil sep cs)
    rw [List.map_cons, split_cons_eq, split_cons_eq, ih, hpieces]
    simp only [hf c]
    split <;> rfl

end Pieces

/-! ## Bytes -/

/-- A span begins where the bytes of the characters before an offset end, and its bytes are those of
one character. -/
structure Span.Covers (s : Span) (source : String) (n : Nat) (c : Char) : Prop where
  start : s.start = (String.ofList (source.toList.take n)).utf8ByteSize
  bytes : source.toByteArray.extract s.start (s.start + s.length) = (String.singleton c).toByteArray

theorem utf8Length_eq (cs : List Char) : utf8Length cs = (String.ofList cs).utf8ByteSize := by
  rw [← String.size_toByteArray, String.toByteArray_ofList]
  induction cs with
  | nil => rfl
  | cons c cs ih =>
    rw [List.utf8Encode_cons, ByteArray.size_append, ← ih, List.utf8Encode_singleton,
      List.size_toByteArray, String.length_utf8EncodeChar]
    rfl

theorem extract_middle (before bytes after : ByteArray) :
    (before ++ (bytes ++ after)).extract before.size (before.size + bytes.size) = bytes := by
  have h := ByteArray.extract_append_size_add (a := before) (b := bytes ++ after) (i := 0)
    (j := bytes.size)
  rw [Nat.add_zero] at h
  rw [h, ByteArray.extract_append_eq_left rfl]

/-- The span of a position covers the character there. -/
theorem Position.span_covers {p : Position} {source : String} {c : Char}
    (h : source.toList[p.offset]? = some c) : (p.span source).Covers source p.offset c := by
  obtain ⟨hlt, hc⟩ := List.getElem?_eq_some_iff.mp h
  have hdrop : source.toList.drop p.offset = c :: source.toList.drop (p.offset + 1) := by
    rw [List.drop_eq_getElem_cons hlt, hc]
  have hspan : p.span source = ⟨utf8Length (source.toList.take p.offset), c.utf8Size⟩ := by
    simp only [Position.span, hdrop]
  have hsource : source.toByteArray = (source.toList.take p.offset).utf8Encode ++
      ([c].utf8Encode ++ (source.toList.drop (p.offset + 1)).utf8Encode) := by
    rw [← List.utf8Encode_append, ← List.utf8Encode_append, List.singleton_append, ← hdrop,
      List.take_append_drop, ← String.toByteArray_ofList, String.ofList_toList]
  have hbefore : utf8Length (source.toList.take p.offset) =
      (source.toList.take p.offset).utf8Encode.size := by
    rw [utf8Length_eq, ← String.size_toByteArray, String.toByteArray_ofList]
  have hsize : c.utf8Size = [c].utf8Encode.size := by
    rw [List.utf8Encode_singleton, List.size_toByteArray, String.length_utf8EncodeChar]
  rw [hspan]
  refine ⟨utf8Length_eq _, ?_⟩
  simp only [hbefore, hsize, hsource]
  rw [extract_middle, String.toByteArray_singleton]

/-! ## Lines and columns -/

section Lines

/-- A line ends at the first character of a text. -/
def endsLine : List Char → Bool
  | [] => false
  | c :: cs => c = '\n' || (c = '\r' && cs.head? != some '\n')

/-- The line of an offset: one more than the lines that end before it. -/
def lineAt (cs : List Char) (n : Nat) : Nat :=
  (List.range n).countP (fun i => endsLine (cs.drop i)) + 1

/-- The column of an offset: one more than the characters before it on its line. -/
def columnAt (cs : List Char) (n : Nat) : Nat :=
  ((List.range n).reverse.takeWhile fun i => !endsLine (cs.drop i)).length + 1

def Position.ofOffset (cs : List Char) (n : Nat) : Position := ⟨n, lineAt cs n, columnAt cs n⟩

variable {cs ds : List Char} {n : Nat}

theorem lineAt_succ : lineAt cs (n + 1) =
    if endsLine (cs.drop n) then lineAt cs n + 1 else lineAt cs n := by
  rw [lineAt, List.range_succ, List.countP_append, List.countP_singleton, lineAt]
  split <;> omega

theorem columnAt_succ : columnAt cs (n + 1) =
    if endsLine (cs.drop n) then 1 else columnAt cs n + 1 := by
  rw [columnAt, List.range_succ, List.reverse_append, List.reverse_singleton,
    List.singleton_append, List.takeWhile_cons]
  cases endsLine (cs.drop n) <;> rfl

theorem columnAt_pos : 0 < columnAt cs n := Nat.succ_pos _

/-- Lines and columns depend on where lines end only. -/
theorem Position.ofOffset_congr (h : ∀ i < n, endsLine (cs.drop i) = endsLine (ds.drop i)) :
    Position.ofOffset cs n = Position.ofOffset ds n := by
  have hboth : lineAt cs n = lineAt ds n ∧ columnAt cs n = columnAt ds n := by
    induction n with
    | zero => exact ⟨rfl, rfl⟩
    | succ n ih =>
      obtain ⟨hline, hcolumn⟩ := ih fun i hi => h i (by omega)
      rw [lineAt_succ, lineAt_succ, columnAt_succ, columnAt_succ, hline, hcolumn, h n (by omega)]
      exact ⟨rfl, rfl⟩
  rw [ofOffset, hboth.1, hboth.2, ofOffset]

/-- Where carriage returns have been replaced, lines end at line feeds. -/
theorem endsLine_of_ne (h : ∀ c ∈ cs, c ≠ '\r') :
    endsLine cs = decide (cs.head? = some '\n') := by
  cases cs with
  | nil => rfl
  | cons c cs =>
    have hc : c ≠ '\r' := h c List.mem_cons_self
    simp [endsLine, hc]

example : Position.ofOffset "a\r\nb\rc".toList 5 = ⟨5, 3, 1⟩ := by decide

end Lines

/-! ## String literals -/

/-- Where a reading stands after the opening quote of a string: in the string, after a backslash
that protects the next character, or behind the closing quote. -/
inductive Literal where
  | inside
  | escaped
  | closed
  deriving DecidableEq, Repr

namespace Literal

def next : Literal → Char → Literal
  | inside, c => if c = '\\' then escaped else if c = '"' then closed else inside
  | escaped, _ => inside
  | closed, _ => closed

theorem foldl_closed (cs : List Char) : cs.foldl next closed = closed := by
  induction cs with
  | nil => rfl
  | cons c cs ih => exact ih

end Literal

/-- What a literal that begins at the offset `k` is before the offset `n`. -/
def literalAt (cs : List Char) (k n : Nat) : Literal :=
  ((cs.drop (k + 1)).take (n - (k + 1))).foldl .next .inside

variable {cs : List Char} {k n n' : Nat} {c : Char}

/-- Directly after its quote a literal is open. -/
theorem literalAt_self_succ : literalAt cs k (k + 1) = .inside := by
  rw [literalAt, Nat.sub_self]
  rfl

theorem literalAt_succ (hk : k < n) (hc : cs[n]? = some c) :
    literalAt cs k (n + 1) = (literalAt cs k n).next c := by
  have hdrop : (cs.drop (k + 1))[n - (k + 1)]? = some c := by
    rw [List.getElem?_drop, Nat.add_sub_cancel' hk, hc]
  rw [literalAt, Nat.succ_sub hk, List.take_add_one, hdrop, Option.toList_some, List.foldl_append]
  rfl

/-- A closed literal stays closed. -/
theorem literalAt_closed (h : literalAt cs k n = .closed) (hn : n ≤ n') :
    literalAt cs k n' = .closed := by
  obtain ⟨d, hd⟩ : ∃ d, n' - (k + 1) = n - (k + 1) + d := ⟨n' - (k + 1) - (n - (k + 1)), by omega⟩
  rw [literalAt] at h
  rw [literalAt, hd, List.take_add, List.foldl_append, h, Literal.foldl_closed]

/-- A closed literal has begun. -/
theorem lt_of_literalAt (h : literalAt cs k n ≠ .inside) : k < n := by
  refine Nat.lt_of_not_le fun hle => h ?_
  rw [literalAt, Nat.sub_eq_zero_of_le (by omega)]
  rfl

end Formulary

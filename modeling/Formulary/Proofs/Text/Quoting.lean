import Formulary.Proofs.Text.Basic
import Formulary.Proofs.Text.Beginning

/-!
# Strings and comments of a text

Two readings of a text know where its strings are: the blanking of comments, on the text itself, and
any reading of the prepared text that only follows quotes and backslashes.  Both agree, and what
belongs to a comment is outside strings.

* `Comment.modeAt`: the mode before an offset.
* `Literal.follow`: strings one after the other.
* `Comment.literal_prepare`: the strings of the prepared text are those of the text.
* `Comment.Covers`, `Comment.Spares`: the characters of comments, and those that stay.
-/

namespace Formulary

/-- The next character, of a string or outside, where a quote opens one. -/
def Literal.follow : Literal → Char → Literal
  | .closed, c => if c = '"' then .inside else .closed
  | l, c => l.next c

namespace Comment

def modeAt (cs : List Char) (n : Nat) : Mode := (cs.take n).foldl Mode.next .plain

def Mode.literal : Mode → Literal
  | .quoted => .inside
  | .escaped => .escaped
  | _ => .closed

variable {m : Mode} {c : Char} {cs : List Char} {n : Nat} {source : String}

theorem Mode.eq_quoted_iff : m = .quoted ↔ m.literal = .inside := by
  cases m <;> decide

theorem Mode.eq_escaped_iff : m = .escaped ↔ m.literal = .escaped := by
  cases m <;> decide

theorem modeAt_succ (hc : cs[n]? = some c) : modeAt cs (n + 1) = (modeAt cs n).next c := by
  rw [modeAt, List.take_add_one, hc, Option.toList_some, List.foldl_append]
  rfl

/-! ## The strings of the blanked text -/

theorem follow_blank (l : Literal) (hl : l = .closed) (c : Char) :
    l.follow (blank c) = .closed := by
  subst hl
  exact if_neg (isBlank_ne (isBlank_blank c)).2.2

/-- What a character adds to the blanked text opens and closes strings as the character does. -/
theorem foldl_emit (m : Mode) (c : Char) :
    (m.emit c).foldl Literal.follow m.literal = (m.next c).literal := by
  cases m with
  | plain | slash => grind [Mode.emit, Mode.next, Mode.afterPlain, Mode.literal, Literal.follow]
  | line | block | star =>
    refine (follow_blank _ rfl c).trans ?_
    grind [Mode.next, Mode.literal]
  | quoted => grind [Mode.emit, Mode.next, Mode.literal, Literal.follow, Literal.next]
  | escaped => rfl

/-- A slash that waits is written outside strings. -/
theorem foldl_take_close (m : Mode) (cs : List Char) :
    ((stripFrom m cs).take m.close.length).foldl Literal.follow m.literal = m.literal := by
  by_cases hm : m = .slash
  · subst hm
    cases cs with
    | nil => rfl
    | cons c cs =>
      by_cases hopen : c = '/' ∨ c = '*' <;>
        simp [stripFrom, Mode.emit, hopen, Mode.close, Mode.literal, Literal.follow]
  · rw [close_of_ne hm]
    rfl

/-- The strings of the blanked text are those of the text, up to any offset. -/
theorem foldl_take_stripFrom (m : Mode) {cs : List Char} (hn : n ≤ cs.length) :
    ((stripFrom m cs).take (m.close.length + n)).foldl Literal.follow m.literal =
      ((cs.take n).foldl Mode.next m).literal := by
  induction cs generalizing m n with
  | nil =>
    obtain rfl : n = 0 := Nat.le_zero.mp hn
    exact foldl_take_close m []
  | cons c cs ih =>
    cases n with
    | zero => exact foldl_take_close m (c :: cs)
    | succ n =>
      have hlength : m.close.length + (n + 1) =
          (m.emit c).length + ((m.next c).close.length + n) := by
        have hemit := length_emit m c
        omega
      rw [stripFrom, hlength, List.take_length_add_append, List.foldl_append, foldl_emit,
        ih (m.next c) (Nat.le_of_succ_le_succ hn), List.take_succ_cons, List.foldl_cons]

/-! ## The strings of the prepared text -/

/-- A line break neither opens nor closes a string. -/
theorem follow_plainBreak (l : Literal) (c d : Char) : l.follow (plainBreak c d) = l.follow c := by
  by_cases hc : c = '\r'
  · subst hc
    rw [plainBreak, if_pos rfl]
    by_cases hd : d = '\n' <;> cases l <;> simp [hd, Literal.follow, Literal.next]
  · rw [plainBreak, if_neg hc]

theorem foldl_plainBreaks (l : Literal) (cs : List Char) (n : Nat) :
    ((plainBreaks cs).take n).foldl Literal.follow l = (cs.take n).foldl Literal.follow l := by
  induction cs generalizing l n with
  | nil => rfl
  | cons c cs ih =>
    cases n with
    | zero => rfl
    | succ n =>
      rw [plainBreaks_cons, List.take_succ_cons, List.foldl_cons, ih, follow_plainBreak,
        List.take_succ_cons, List.foldl_cons]

/-- The strings of the prepared text are those of the text. -/
theorem literal_prepare (hn : n ≤ source.toList.length) :
    ((prepare source).1.take n).foldl Literal.follow .closed =
      (modeAt source.toList n).literal := by
  have hstrip := foldl_take_stripFrom (n := n) .plain hn
  rw [show Mode.plain.close.length + n = n from Nat.zero_add n, ← toList_strip] at hstrip
  rw [prepare_append, foldl_plainBreaks,
    List.take_append_of_le_length (by rwa [length_strip])]
  exact hstrip

/-! ## The characters of comments -/

/-- The character at the offset belongs to a comment: it is read in one, or it is one of the two
that open one. -/
def Covers (cs : List Char) (n : Nat) : Prop :=
  (modeAt cs n).inComment ∨ SplitsOpener cs n ∨ SplitsOpener cs (n + 1)

instance (cs : List Char) (n : Nat) : Decidable (Covers cs n) :=
  inferInstanceAs (Decidable (_ ∨ _ ∨ _))

structure Spares (source : String) (n : Nat) : Prop where
  not_covers : ¬ Covers source.toList n
  kept : (strip source).toList[n]? = source.toList[n]?

/-- What belongs to a comment is read outside strings, and leaves the reading outside. -/
theorem Covers.literal (h : Covers cs n) (hc : cs[n]? = some c) :
    (modeAt cs n).literal = .closed ∧ (modeAt cs (n + 1)).literal = .closed := by
  rcases h with h | ⟨hslash, hopen⟩ | ⟨hslash, -⟩
  · rw [modeAt_succ hc]
    revert h
    generalize modeAt cs n = m
    cases m <;> grind [Mode.inComment, Mode.literal, Mode.next]
  · have hopen : c = '/' ∨ c = '*' := by simpa [hc] using hopen
    have hslash : modeAt cs n = .slash := hslash
    rw [modeAt_succ hc, hslash]
    rcases hopen with rfl | rfl <;> exact ⟨rfl, rfl⟩
  · have hslash : modeAt cs (n + 1) = .slash := hslash
    have hplain := hslash
    rw [modeAt_succ hc, next_eq_slash_iff] at hplain
    rw [hslash, hplain.1]
    exact ⟨rfl, rfl⟩

/-- A character that belongs to no comment is written behind the slash that may wait for it. -/
theorem getElem?_stripFrom (cs : List Char) (hm : m.inComment = false)
    (hsecond : ¬ (m = .slash ∧ (c = '/' ∨ c = '*')))
    (hfirst : ¬ (m.next c = .slash ∧ (cs.head? = some '/' ∨ cs.head? = some '*'))) :
    (stripFrom m (c :: cs))[m.close.length]? = some c := by
  by_cases hwait : m.next c = .slash
  · obtain ⟨rfl, rfl⟩ := next_eq_slash_iff.mp hwait
    obtain ⟨ds, hds⟩ := stripFrom_waiting (not_or.mp fun h => hfirst ⟨rfl, h⟩)
    have hall : stripFrom .plain ('/' :: cs) = '/' :: ds := hds
    rw [hall]
    rfl
  · have hemit : m.emit c = m.close ++ [c] := by
      rw [next_eq_slash_iff] at hwait
      cases m <;> grind [Mode.emit, Mode.close, Mode.inComment]
    rw [stripFrom, hemit, List.append_assoc, List.getElem?_append_right (Nat.le_refl _),
      Nat.sub_self]
    rfl

/-- What belongs to no comment stays. -/
theorem getElem?_strip (h : ¬ Covers source.toList n) :
    (strip source).toList[n]? = source.toList[n]? := by
  rcases Nat.lt_or_ge n source.toList.length with hn | hn
  · obtain ⟨c, hc⟩ : ∃ c, source.toList[n]? = some c := ⟨_, List.getElem?_eq_getElem hn⟩
    obtain ⟨hcomment, hsecond, hfirst⟩ : (modeAt source.toList n).inComment = false ∧
        ¬ SplitsOpener source.toList n ∧ ¬ SplitsOpener source.toList (n + 1) := by
      simpa only [Covers, not_or, Bool.not_eq_true] using h
    obtain ⟨out, hlength, hout⟩ := stripFrom_append .plain (source.toList.take n)
    have hdrop : source.toList.drop n = c :: source.toList.drop (n + 1) :=
      (List.drop_eq_getElem_cons hn).trans
        (congrArg (· :: _) (List.getElem?_eq_some_iff.mp hc).2)
    have hall := hout (source.toList.drop n)
    rw [List.take_append_drop, ← toList_strip, hdrop] at hall
    rw [List.length_take, Nat.min_eq_left (Nat.le_of_lt hn)] at hlength
    have hlength : n = out.length + (modeAt source.toList n).close.length := hlength.symm
    have hwritten := getElem?_stripFrom (source.toList.drop (n + 1)) hcomment
      (fun ⟨hslash, hopen⟩ => hsecond ⟨hslash, by simpa [hc] using hopen⟩)
      (fun ⟨hslash, hopen⟩ => hfirst ⟨(modeAt_succ hc).trans hslash, by rwa [← List.head?_drop]⟩)
    rw [hall, hc, List.getElem?_append_right (by omega)]
    rwa [show n - out.length = (modeAt source.toList n).close.length by omega]
  · rw [List.getElem?_eq_none (by rwa [length_strip]), List.getElem?_eq_none hn]

end Comment

end Formulary

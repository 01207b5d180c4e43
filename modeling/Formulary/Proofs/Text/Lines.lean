import Formulary.Proofs.Text.Basic
import Formulary.Text.Basic

/-!
# The lines of a text

A text is cut into lines wherever a line ends.  Where this is depends on the reading: lines of a
text end with line feeds and with carriage returns that stand alone, lines of a listing with line
feeds only.

* `linesBy`, `linesOf`: the lines of a text.
* `exists_linesBy`: the line of an offset, and what stands before it on the line.
* `linesOf_place`: a character stands on the line and in the column of its offset.
* `isStray`, `strayReturns`: carriage returns that stand alone.
* `lineAt_eq_add`: the line of an offset, counted by line feeds and by such carriage returns.
* `split_eq_linesOf`: without them lines end at line feeds.
-/

namespace Formulary

/-- The lines of a text without the characters that end them; `ends` says whether a line ends at the
first character of a text. -/
def linesBy (ends : List Char → Bool) : List Char → List (List Char)
  | [] => [[]]
  | c :: cs =>
    if ends (c :: cs) then [] :: linesBy ends cs else (linesBy ends cs).modifyHead (c :: ·)

/-- The lines of a text.  A carriage return before a line feed is the last character of its line. -/
def linesOf (cs : List Char) : List (List Char) := linesBy endsLine cs

variable {ends ends' : List Char → Bool} {cs : List Char} {n : Nat} {c : Char}

theorem linesBy_ne_nil (ends : List Char → Bool) (cs : List Char) : linesBy ends cs ≠ [] := by
  cases cs with
  | nil => exact List.cons_ne_nil _ _
  | cons c cs =>
    rw [linesBy]
    split
    · exact List.cons_ne_nil _ _
    · rw [Ne, List.modifyHead_eq_nil_iff]
      exact linesBy_ne_nil ends cs

theorem linesBy_congr (h : ∀ i < cs.length, ends (cs.drop i) = ends' (cs.drop i)) :
    linesBy ends cs = linesBy ends' cs := by
  induction cs with
  | nil => rfl
  | cons c cs ih =>
    have hcs := ih fun i hi => h (i + 1) (Nat.succ_lt_succ hi)
    have hfirst : ends (c :: cs) = ends' (c :: cs) := h 0 (Nat.succ_pos _)
    rw [linesBy, linesBy, hfirst, hcs]

/-! ## The line of an offset -/

theorem linesBy_drop (ends : List Char → Bool) (hn : n < cs.length) :
    linesBy ends (cs.drop n) = if ends (cs.drop n) then [] :: linesBy ends (cs.drop (n + 1))
      else (linesBy ends (cs.drop (n + 1))).modifyHead (cs[n] :: ·) := by
  rw [List.drop_eq_getElem_cons hn, linesBy]

/-- The line of an offset has as many lines before it as end before the offset, and as many
characters before the offset as have followed since. -/
theorem exists_linesBy (ends : List Char → Bool) (hn : n ≤ cs.length) :
    ∃ before done more after, linesBy ends cs = before ++ (done ++ more) :: after ∧
      before.length = (List.range n).countP (fun i => ends (cs.drop i)) ∧
      done.length = ((List.range n).reverse.takeWhile fun i => !ends (cs.drop i)).length ∧
      linesBy ends (cs.drop n) = more :: after := by
  induction n with
  | zero =>
    obtain ⟨more, after, hlines⟩ := List.exists_cons_of_ne_nil (linesBy_ne_nil ends cs)
    exact ⟨[], [], more, after, hlines, rfl, rfl, hlines⟩
  | succ n ih =>
    obtain ⟨before, done, more, after, hlines, hbefore, hdone, hrest⟩ := ih (by omega)
    obtain ⟨more', after', hnext⟩ :=
      List.exists_cons_of_ne_nil (linesBy_ne_nil ends (cs.drop (n + 1)))
    rw [linesBy_drop ends (by omega), hnext] at hrest
    rw [List.range_succ, List.countP_append, List.countP_singleton, List.reverse_append,
      List.reverse_singleton, List.singleton_append, List.takeWhile_cons, ← hbefore]
    cases hends : ends (cs.drop n) with
    | true =>
      rw [hends] at hrest
      obtain ⟨rfl, rfl⟩ := List.cons.inj hrest
      exact ⟨before ++ [done], [], more', after', by simp [hlines], by simp, rfl, hnext⟩
    | false =>
      rw [hends] at hrest
      obtain ⟨rfl, rfl⟩ := List.cons.inj hrest
      exact ⟨before, done ++ [cs[n]], more', after', by simp [hlines], by simp, by simp [hdone],
        hnext⟩

/-- A character that ends no line is on the line of its offset, behind those before it. -/
theorem linesBy_getElem (hc : cs[n]? = some c) (hends : ends (cs.drop n) = false) :
    ∃ text, (linesBy ends cs)[(List.range n).countP (fun i => ends (cs.drop i))]? = some text ∧
      text[((List.range n).reverse.takeWhile fun i => !ends (cs.drop i)).length]? = some c := by
  obtain ⟨hn, rfl⟩ := List.getElem?_eq_some_iff.mp hc
  obtain ⟨before, done, more, after, hlines, hbefore, hdone, hrest⟩ :=
    exists_linesBy ends (Nat.le_of_lt hn)
  obtain ⟨more', after', hnext⟩ :=
    List.exists_cons_of_ne_nil (linesBy_ne_nil ends (cs.drop (n + 1)))
  rw [linesBy_drop ends hn, hends, hnext] at hrest
  obtain ⟨rfl, -⟩ := List.cons.inj hrest
  refine ⟨done ++ cs[n] :: more', ?_, ?_⟩
  · rw [hlines, ← hbefore]
    simp
  · rw [← hdone]
    simp

/-- A character is on its line and in its column. -/
theorem linesOf_place (hc : cs[n]? = some c) (hends : endsLine (cs.drop n) = false) :
    ∃ text, (linesOf cs)[lineAt cs n - 1]? = some text ∧ text[columnAt cs n - 1]? = some c :=
  linesBy_getElem hc hends

/-! ## Carriage returns that stand alone -/

def isStray : List Char → Bool
  | [] => false
  | c :: cs => c = '\r' && cs.head? != some '\n'

def isFeed (cs : List Char) : Bool := cs.head? = some '\n'

def strayReturns (cs : List Char) (n : Nat) : Nat :=
  (List.range n).countP fun i => isStray (cs.drop i)

def feeds (cs : List Char) (n : Nat) : Nat := (List.range n).countP fun i => isFeed (cs.drop i)

theorem endsLine_eq (cs : List Char) : endsLine cs = (isFeed cs || isStray cs) := by
  cases cs <;> simp [endsLine, isFeed, isStray]

theorem isFeed_of_isStray (h : isStray cs) : isFeed cs = false := by
  cases cs with
  | nil => rfl
  | cons c cs =>
    rw [isStray, Bool.and_eq_true, decide_eq_true_eq] at h
    simp [isFeed, h.1]

/-- Lines end at blanks only. -/
theorem endsLine_of_not_blank (hc : cs[n]? = some c) (hblank : isBlank c = false) :
    endsLine (cs.drop n) = false := by
  obtain ⟨hn, rfl⟩ := List.getElem?_eq_some_iff.mp hc
  rw [← Bool.not_eq_true]
  intro hends
  rw [List.drop_eq_getElem_cons hn, endsLine] at hends
  grind [isBlank]

theorem isFeed_of_not_blank (hc : cs[n]? = some c) (hblank : isBlank c = false) :
    isFeed (cs.drop n) = false := by
  have hends := endsLine_of_not_blank hc hblank
  rw [endsLine_eq, Bool.or_eq_false_iff] at hends
  exact hends.1

/-- Lines are counted by line feeds and by carriage returns that stand alone. -/
theorem lineAt_eq_add (cs : List Char) (n : Nat) :
    lineAt cs n = feeds cs n + strayReturns cs n + 1 := by
  induction n with
  | zero => rfl
  | succ n ih =>
    have hfeeds : feeds cs (n + 1) = feeds cs n + if isFeed (cs.drop n) then 1 else 0 := by
      rw [feeds, List.range_succ, List.countP_append, List.countP_singleton, feeds]
    have hreturns : strayReturns cs (n + 1) =
        strayReturns cs n + if isStray (cs.drop n) then 1 else 0 := by
      rw [strayReturns, List.range_succ, List.countP_append, List.countP_singleton, strayReturns]
    rw [lineAt_succ, ih, hfeeds, hreturns, endsLine_eq]
    cases hstray : isStray (cs.drop n) with
    | true =>
      rw [isFeed_of_isStray hstray]
      simp
      omega
    | false =>
      cases isFeed (cs.drop n) with
      | true =>
        simp
        omega
      | false => simp

/-- Where there are no carriage returns, none stands alone. -/
theorem strayReturns_eq_zero (h : '\r' ∉ cs) (n : Nat) : strayReturns cs n = 0 := by
  rw [strayReturns, List.countP_eq_zero]
  intro i _
  cases hdrop : cs.drop i with
  | nil => simp [isStray]
  | cons c rest =>
    have hc : c ∈ cs := List.mem_of_mem_drop (hdrop ▸ List.mem_cons_self)
    simp [isStray, ne_of_mem_of_not_mem hc h]

/-- A cut at line feeds. -/
theorem split_eq_linesBy (cs : List Char) : split '\n' cs = linesBy isFeed cs := by
  induction cs with
  | nil => rfl
  | cons c cs ih => simp [split_cons_eq, linesBy, isFeed, ih]

/-- Where no carriage return stands alone, lines end at line feeds. -/
theorem split_eq_linesOf (h : strayReturns cs cs.length = 0) : split '\n' cs = linesOf cs := by
  rw [split_eq_linesBy, linesOf]
  refine linesBy_congr fun i hi => ?_
  rw [strayReturns, List.countP_eq_zero] at h
  have hstray : isStray (cs.drop i) = false := by simpa using h i (List.mem_range.mpr hi)
  rw [endsLine_eq, hstray, Bool.or_false]

end Formulary

import Formulary.Proofs.Text.Prepared

/-!
# What stands in front of a text

* `LongestFront`: the longest characters of which every beginning is that of an operator.
* `operatorRun`, `longestFront_operatorRun`: every text has such characters in front.
* `nextAt`: the offset of the next character that is no blank.
* `take_prepare_blanks`, `take_prepare_word`: how blanks and words of a text are prepared.
-/

namespace Formulary

variable {ops : List String} {cs v w : List Char} {c : Char} {n : Nat}

/-! ## Beginnings of operators -/

def beginsSome (ops : List String) (w : List Char) : Bool :=
  ops.any fun op => w.isPrefixOf op.toList

theorem beginsSome_mono (h : beginsSome ops w) (hv : v <+: w) : beginsSome ops v := by
  rw [beginsSome, List.any_eq_true] at h ⊢
  obtain ⟨op, hop, hfront⟩ := h
  exact ⟨op, hop, List.isPrefixOf_iff_prefix.mpr
    (hv.trans (List.isPrefixOf_iff_prefix.mp hfront))⟩

/-- Characters in front of a text, none of them a blank, of which every beginning is that of a
registered operator. -/
structure OperatorFront (ops : List String) (cs w : List Char) : Prop where
  front : w <+: cs
  not_blank : ∀ c ∈ w, isBlank c = false
  begins : ∀ v, v <+: w → beginsSome ops v

structure LongestFront (ops : List String) (cs w : List Char) : Prop
    extends OperatorFront ops cs w where
  longest : ∀ v, OperatorFront ops cs v → v.length ≤ w.length

/-- The characters by which the beginning of an operator goes on. -/
def operatorRun (ops : List String) : List Char → List Char → List Char
  | _, [] => []
  | w, c :: cs =>
    if !isBlank c && beginsSome ops (w ++ [c]) then c :: operatorRun ops (w ++ [c]) cs else []

theorem operatorRun_cons_of_begins (hc : isBlank c = false) (h : beginsSome ops (w ++ [c])) :
    operatorRun ops w (c :: cs) = c :: operatorRun ops (w ++ [c]) cs := by
  rw [operatorRun, if_pos (by simp [hc, h])]

theorem operatorRun_spec (ops : List String) (w cs : List Char) :
    operatorRun ops w cs <+: cs ∧ (∀ c ∈ operatorRun ops w cs, isBlank c = false) ∧
      (beginsSome ops w → beginsSome ops (w ++ operatorRun ops w cs)) := by
  induction cs generalizing w with
  | nil => exact ⟨List.prefix_rfl, nofun, fun h => by rwa [operatorRun, List.append_nil]⟩
  | cons c cs ih =>
    rw [operatorRun]
    split
    · next hc =>
      rw [Bool.and_eq_true, Bool.not_eq_true'] at hc
      obtain ⟨hfront, hblank, hbegins⟩ := ih (w ++ [c])
      refine ⟨List.cons_prefix_cons.mpr ⟨rfl, hfront⟩,
        List.forall_mem_cons.mpr ⟨hc.1, hblank⟩, fun _ => ?_⟩
      rw [List.append_cons]
      exact hbegins hc.2
    · exact ⟨List.nil_prefix, nofun, fun h => by rwa [List.append_nil]⟩

theorem length_le_operatorRun (hv : v <+: cs) (hblank : ∀ c ∈ v, isBlank c = false)
    (hbegins : beginsSome ops (w ++ v)) : v.length ≤ (operatorRun ops w cs).length := by
  induction v generalizing w cs with
  | nil => exact Nat.zero_le _
  | cons c v ih =>
    obtain ⟨rest, rfl⟩ := hv
    rw [List.forall_mem_cons] at hblank
    have hc : beginsSome ops (w ++ [c]) := beginsSome_mono hbegins ⟨v, by simp⟩
    rw [List.cons_append, operatorRun_cons_of_begins hblank.1 hc, List.length_cons,
      List.length_cons]
    rw [List.append_cons] at hbegins
    exact Nat.succ_le_succ (ih (List.prefix_append ..) hblank.2 hbegins)

/-- Every text has the longest beginning of an operator in front of it. -/
theorem longestFront_operatorRun (h : beginsSome ops []) (cs : List Char) :
    LongestFront ops cs (operatorRun ops [] cs) := by
  obtain ⟨hfront, hblank, hbegins⟩ := operatorRun_spec ops [] cs
  exact ⟨⟨hfront, hblank, fun v hv => beginsSome_mono (hbegins h) hv⟩,
    fun v hv => length_le_operatorRun hv.front hv.not_blank (hv.begins v List.prefix_rfl)⟩

/-- The longest beginning does not go on. -/
theorem LongestFront.not_begins (h : LongestFront ops cs w) (hc : cs[w.length]? = some c)
    (hblank : isBlank c = false) : beginsSome ops (w ++ [c]) = false := by
  rw [← Bool.not_eq_true]
  intro hbegins
  have hfront : OperatorFront ops cs (w ++ [c]) := by
    refine ⟨?_, ?_, fun v hv => beginsSome_mono hbegins hv⟩
    · obtain ⟨rest, rfl⟩ := h.front
      rw [List.getElem?_append_right (Nat.le_refl _), Nat.sub_self] at hc
      cases rest with
      | nil => cases hc
      | cons d rest =>
        obtain rfl : d = c := Option.some.inj hc
        exact ⟨rest, by simp⟩
    · simpa [or_imp, forall_and] using ⟨h.not_blank, hblank⟩
  have := h.longest _ hfront
  rw [List.length_append, List.length_singleton] at this
  omega

/-! ## The next character -/

/-- The offset of the first character from an offset on that is no blank, or of the end. -/
def nextAt (cs : List Char) (n : Nat) : Nat := n + ((cs.drop n).takeWhile isBlank).length

theorem le_nextAt (cs : List Char) (n : Nat) : n ≤ nextAt cs n := Nat.le_add_right ..

theorem drop_nextAt (cs : List Char) (n : Nat) :
    cs.drop (nextAt cs n) = (cs.drop n).dropWhile isBlank := by
  rw [nextAt, ← List.drop_drop]
  calc (cs.drop n).drop ((cs.drop n).takeWhile isBlank).length
      = ((cs.drop n).takeWhile isBlank ++ (cs.drop n).dropWhile isBlank).drop
          ((cs.drop n).takeWhile isBlank).length := by rw [List.takeWhile_append_dropWhile]
    _ = (cs.drop n).dropWhile isBlank := List.drop_left

/-- Up to the next character there are blanks. -/
theorem exists_gap (cs : List Char) (n : Nat) : ∃ gap, Blanks gap ∧
    n + gap.length = nextAt cs n ∧ cs.drop n = gap ++ cs.drop (nextAt cs n) := by
  refine ⟨(cs.drop n).takeWhile isBlank, fun b hb => List.mem_takeWhile_imp hb, rfl, ?_⟩
  rw [drop_nextAt, List.takeWhile_append_dropWhile]

theorem not_blank_nextAt (h : cs[nextAt cs n]? = some c) : isBlank c = false := by
  rw [← List.head?_drop, drop_nextAt] at h
  have hhead := List.head?_dropWhile_not isBlank (cs.drop n)
  rw [h] at hhead
  simpa using hhead

/-- After the last character there is none. -/
theorem nextAt_eq_length (hn : n ≤ cs.length) (h : cs[nextAt cs n]? = none) :
    nextAt cs n = cs.length := by
  obtain ⟨gap, -, hlength, hdrop⟩ := exists_gap cs n
  have hdrop := congrArg List.length hdrop
  rw [List.length_append, List.length_drop, List.length_drop] at hdrop
  rw [List.getElem?_eq_none_iff] at h
  omega

/-! ## Blanks and words of the prepared text -/

variable {source : String} {gap : List Char}

theorem drop_prepare (h : n ≤ source.toList.length) : (prepare source).1.drop n =
    plainBreaks ((Comment.strip source).toList.drop n ++ addedPoint source) := by
  rw [prepare_append, drop_plainBreaks,
    List.drop_append_of_le_length (by rw [Comment.length_strip]; exact h)]

theorem lt_of_getElem?_strip (h : (Comment.strip source).toList[n]? = some c) :
    n < source.toList.length := by
  rw [← Comment.length_strip]
  exact (List.getElem?_eq_some_iff.mp h).1

/-- A character that is no blank is read as it is. -/
theorem getElem?_prepare (h : (Comment.strip source).toList[n]? = some c)
    (hblank : isBlank c = false) : (prepare source).1[n]? = some c := by
  have hn := lt_of_getElem?_strip h
  have hreturn : c ≠ '\r' := by
    rintro rfl
    cases hblank
  obtain ⟨hlt, rfl⟩ := List.getElem?_eq_some_iff.mp h
  rw [← List.head?_drop, drop_prepare hn.le, List.drop_eq_getElem_cons hlt, List.cons_append,
    plainBreaks_cons_of_ne hreturn, List.head?_cons]

/-- Blanks are read as blanks. -/
theorem take_prepare_blanks (hn : n ≤ source.toList.length)
    (h : (Comment.strip source).toList.drop n = gap ++ cs) (hgap : Blanks gap) :
    ∃ gap', Blanks gap' ∧ gap'.length = gap.length ∧
      (prepare source).1.take (n + gap.length) = (prepare source).1.take n ++ gap' := by
  obtain ⟨gap', hlength, hgap', hbreaks⟩ := hgap.plainBreaks (cs ++ addedPoint source)
  refine ⟨gap', hgap', hlength, ?_⟩
  rw [List.take_add, drop_prepare hn, h, List.append_assoc, hbreaks, ← hlength, List.take_left]

/-- Words are read as they are. -/
theorem take_prepare_word (hn : n ≤ source.toList.length)
    (h : (Comment.strip source).toList.drop n = w ++ cs) (hw : ∀ c ∈ w, isBlank c = false) :
    (prepare source).1.take (n + w.length) = (prepare source).1.take n ++ w := by
  have hreturn : ∀ c ∈ w, c ≠ '\r' := by
    rintro c hc rfl
    cases hw _ hc
  rw [List.take_add, drop_prepare hn, h, List.append_assoc, plainBreaks_append hreturn,
    List.take_left]

end Formulary

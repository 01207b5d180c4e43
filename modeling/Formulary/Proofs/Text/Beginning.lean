import Formulary.Proofs.Text.Fillers

/-!
# The beginning of a text

A text that is cut off is prepared as its beginning is in the whole text.  Only a carriage return
that is the last character before the cut may become another blank, and a cut in the middle of a
comment opener would leave a slash.

* `Comment.SplitsOpener`: a cut between the two characters that open a comment.
* `Comment.strip_take`: the comments of a beginning.
* `UpToLast`: characters that agree but for a blank at the end.
* `prepare_take`: the characters that are read of a beginning.
-/

namespace Formulary

/-! ## Comments -/

namespace Comment

/-- The offset `n` is between the two characters that open a comment. -/
def SplitsOpener (cs : List Char) (n : Nat) : Prop :=
  (cs.take n).foldl Mode.next .plain = .slash ∧ (cs[n]? = some '/' ∨ cs[n]? = some '*')

instance (cs : List Char) (n : Nat) : Decidable (SplitsOpener cs n) :=
  inferInstanceAs (Decidable (_ ∧ (_ ∨ _)))

/-- A slash that opens no comment is written in any case. -/
theorem stripFrom_waiting {cs : List Char} (h : cs.head? ≠ some '/' ∧ cs.head? ≠ some '*') :
    ∃ ds, stripFrom .slash cs = '/' :: ds := by
  cases cs with
  | nil => exact ⟨[], rfl⟩
  | cons c cs =>
    have hc : c ≠ '/' ∧ c ≠ '*' := by simpa using h
    exact ⟨c :: stripFrom (Mode.next .slash c) cs, by simp [stripFrom, Mode.emit, hc]⟩

/-- The comments of a beginning are those of the whole text. -/
theorem strip_take {source : String} {n : Nat} (hn : n ≤ source.toList.length)
    (hcut : ¬ SplitsOpener source.toList n) :
    (strip (String.ofList (source.toList.take n))).toList = (strip source).toList.take n := by
  obtain ⟨out, hlength, hout⟩ := stripFrom_append .plain (source.toList.take n)
  have hpre := hout []
  have hall := hout (source.toList.drop n)
  rw [List.append_nil] at hpre
  rw [List.take_append_drop] at hall
  rw [toList_strip, toList_strip, String.toList_ofList, hpre, hall]
  rw [List.length_take, Nat.min_eq_left hn] at hlength
  by_cases hslash : (source.toList.take n).foldl Mode.next .plain = .slash
  · have hnext : (source.toList.drop n).head? ≠ some '/' ∧
        (source.toList.drop n).head? ≠ some '*' := by
      rw [List.head?_drop, ← not_or]
      exact fun h => hcut ⟨hslash, h⟩
    obtain ⟨ds, hds⟩ := stripFrom_waiting hnext
    rw [hslash] at hlength ⊢
    have hall : (out ++ ['/']).length = n := by simpa [Mode.close] using hlength
    rw [hds, ← List.singleton_append, ← List.append_assoc, List.take_left' hall]
    rfl
  · rw [close_of_ne hslash] at hlength
    have hall : out.length = n := by simpa [Mode.close] using hlength
    rw [stripFrom, close_of_ne hslash, List.append_nil, List.take_left' hall]

end Comment

/-! ## Line breaks -/

/-- Two texts agree, but for different blanks that may be their last characters. -/
inductive UpToLast : List Char → List Char → Prop
  | same (cs : List Char) : UpToLast cs cs
  | last {cs : List Char} {c d : Char} : isBlank c → isBlank d → UpToLast (cs ++ [c]) (cs ++ [d])

/-- Line breaks are written as they are in the beginning of a text, up to its last character. -/
theorem exists_plainBreaks_append (cs : List Char) (c : Char) : ∃ out : List Char,
    out.length = cs.length ∧ ∀ ds, plainBreaks (cs ++ c :: ds) = out ++ plainBreaks (c :: ds) := by
  induction cs with
  | nil => exact ⟨[], rfl, fun ds => rfl⟩
  | cons a cs ih =>
    obtain ⟨out, hlength, hout⟩ := ih
    refine ⟨plainBreak a ((cs ++ [c]).headD ' ') :: out, by simp [hlength], fun ds => ?_⟩
    rw [List.cons_append, plainBreaks_cons, hout]
    cases cs <;> rfl

theorem isBlank_plainBreak {d : Char} : isBlank (plainBreak '\r' d) := by
  rw [plainBreak, if_pos rfl]
  split <;> decide

theorem upToLast_plainBreaks (cs ds es : List Char) (hds : plainBreaks ds = ds) :
    ∃ front, plainBreaks (cs ++ ds) = front ++ ds ∧
      UpToLast ((plainBreaks (cs ++ es)).take cs.length) front := by
  rcases List.eq_nil_or_concat cs with rfl | ⟨cs, c, rfl⟩
  · exact ⟨[], by simpa using hds, .same []⟩
  · obtain ⟨out, hlength, hout⟩ := exists_plainBreaks_append cs c
    refine ⟨out ++ [plainBreak c (ds.headD ' ')], ?_, ?_⟩
    · rw [List.concat_append, hout, plainBreaks_cons, hds]
      simp
    · rw [List.concat_append, hout, plainBreaks_cons, ← List.singleton_append, ← List.append_assoc,
        List.take_left' (by simp [hlength])]
      by_cases hc : c = '\r'
      · subst hc
        exact .last isBlank_plainBreak isBlank_plainBreak
      · rw [plainBreak, plainBreak, if_neg hc, if_neg hc]
        exact .same _

/-! ## Preparation -/

theorem plainBreaks_addedPoint (source : String) :
    plainBreaks (addedPoint source) = addedPoint source := by
  rw [addedPoint]
  split <;> rfl

/-- What is read of a beginning is what is read of the whole text, and a point if one is added. -/
theorem prepare_take {source : String} {n : Nat} (hn : n ≤ source.toList.length)
    (hcut : ¬ Comment.SplitsOpener source.toList n) :
    ∃ front, (prepare (String.ofList (source.toList.take n))).1 =
        front ++ addedPoint (String.ofList (source.toList.take n)) ∧
      UpToLast ((prepare source).1.take n) front := by
  have hlength : ((Comment.strip source).toList.take n).length = n := by
    rw [List.length_take, Comment.length_strip, Nat.min_eq_left hn]
  obtain ⟨front, hfront, hlast⟩ := upToLast_plainBreaks ((Comment.strip source).toList.take n)
    (addedPoint (String.ofList (source.toList.take n)))
    ((Comment.strip source).toList.drop n ++ addedPoint source) (plainBreaks_addedPoint _)
  rw [← List.append_assoc, List.take_append_drop, ← prepare_append, hlength] at hlast
  rw [← Comment.strip_take hn hcut, ← prepare_append] at hfront
  exact ⟨front, hfront, hlast⟩

/-- A last character that is no blank is the same. -/
theorem UpToLast.eq_of_not_blank {cs ds : List Char} {c : Char} (h : UpToLast (cs ++ [c]) ds)
    (hc : isBlank c = false) : ds = cs ++ [c] := by
  generalize hall : cs ++ [c] = all at h
  cases h with
  | same => rfl
  | last hblank _ =>
    obtain ⟨-, hlast⟩ := List.append_inj' hall rfl
    cases hlast
    rw [hc] at hblank
    cases hblank

theorem addedPoint_of_endsWithPoint {source : String}
    (h : endsWithPoint (Comment.strip source).toList = false) : addedPoint source = ['.'] := by
  simp [addedPoint, prepare, h]

/-- A text that ends with a backslash does not end with a point. -/
theorem addedPoint_of_backslash {source : String} {cs : List Char}
    (h : (prepare source).1 = cs ++ ['\\'] ++ addedPoint source) : addedPoint source = ['.'] := by
  rcases addedPoint_cases source with hadded | hadded
  · exact hadded
  · rw [prepare_append, hadded, List.append_nil, List.append_nil] at h
    have hend : plainBreaks ((Comment.strip source).toList.drop cs.length) = ['\\'] := by
      rw [← drop_plainBreaks, h, List.drop_left]
    have hword : ['\\'] <+: (Comment.strip source).toList.drop cs.length :=
      prefix_of_plainBreaks ⟨[], (List.append_nil _).trans hend.symm⟩
        (List.forall_mem_singleton.mpr rfl)
    have hlength := congrArg List.length h
    rw [length_plainBreaks, List.length_append, List.length_singleton] at hlength
    have hdrop : ['\\'] = (Comment.strip source).toList.drop cs.length :=
      hword.eq_of_length (by rw [List.length_drop, hlength]; simp)
    refine addedPoint_of_endsWithPoint ?_
    rw [← List.take_append_drop cs.length (Comment.strip source).toList, ← hdrop, endsWithPoint,
      List.reverse_append]
    rfl

end Formulary

import Formulary.Proofs.Layout.Unambiguous
import Formulary.Proofs.Reader.Listing

/-!
# The caret of a listing

A listing numbers its lines in fields of three characters or more, and its caret stands behind a
margin for fields of three.  So the caret is below the character of its column as long as the number
of the line has no more than three digits, and to the left of it by the digits beyond.

* `columnIndex`: where a numbered line shows a column, `columnIndex_eq_iff`: as the caret has it.
* `headLines`, `shownFor`: the head of a listing, and the lines of the text in it.
* `listing_rows`: a listing is its head, the numbered lines and a caret line below one of them.
* `listing_caret`: where the caret stands, for a position on any line.
* `listing_caret_left`: a listing in which it does not stand below its character.
-/

namespace Formulary

variable {source message : String} {p : Position} {number column : Nat} {text : List Char}

/-! ## Numbers of lines -/

theorem word_toDigits (n : Nat) :
    Nat.toDigits 10 n ≠ [] ∧ ' ' ∉ Nat.toDigits 10 n ∧ '\n' ∉ Nat.toDigits 10 n := by
  have hdigit : ∀ c ∈ Nat.toDigits 10 n, c.isDigit := fun c hc =>
    Nat.isDigit_of_mem_toDigits (by decide) (by decide) hc
  refine ⟨Nat.toDigits_ne_nil, fun hc => ?_, fun hc => ?_⟩
  · exact absurd (hdigit _ hc) (by decide)
  · exact absurd (hdigit _ hc) (by decide)

theorem toList_lineNumber (n : Nat) : (lineNumber n).toList =
    List.replicate (3 - (Nat.toDigits 10 n).length) ' ' ++ Nat.toDigits 10 n := by
  have hlength : n.repr.length = (Nat.toDigits 10 n).length := by
    rw [Nat.repr_eq_ofList_toDigits, String.length_ofList]
  simp [lineNumber, hlength]

theorem length_lineNumber (n : Nat) :
    (lineNumber n).length = 3 + ((Nat.toDigits 10 n).length - 3) := by
  rw [← String.length_toList, toList_lineNumber, List.length_append, List.length_replicate]
  omega

/-! ## The two lines -/

theorem toList_listingLine (number : Nat) (text : List Char) :
    (listingLine number text).toList =
      (lineNumber number).toList ++ ':' :: ' ' :: text ++ ['\n'] := by
  simp [listingLine]

theorem toList_caretLine (column : Nat) : (caretLine column).toList =
    List.replicate 5 ' ' ++ (List.replicate (column - 1) '-' ++ ['^'] ++ ['\n']) := by
  simp [caretLine]

theorem isLine_listingLine (number : Nat) (htext : '\n' ∉ text) :
    IsLine (listingLine number text) := by
  refine ⟨_, toList_listingLine number text, ?_⟩
  simp [toList_lineNumber, htext, (word_toDigits number).2.2]

theorem isLine_caretLine (column : Nat) : IsLine (caretLine column) := by
  refine ⟨List.replicate 5 ' ' ++ (List.replicate (column - 1) '-' ++ ['^']), ?_, by simp⟩
  rw [toList_caretLine, ← List.append_assoc]

theorem leading_listingLine (number : Nat) (text : List Char) :
    leading (listingLine number text) < 5 := by
  have hchars : (listingLine number text).toList =
      List.replicate (3 - (Nat.toDigits 10 number).length) ' ' ++
        (Nat.toDigits 10 number ++ (':' :: ' ' :: text ++ ['\n'])) := by
    rw [toList_listingLine, toList_lineNumber]
    simp
  have hword := word_toDigits number
  rw [leading_eq hchars hword.1 hword.2.1]
  omega

theorem leading_caretLine (column : Nat) : leading (caretLine column) = 5 :=
  leading_eq (toList_caretLine column) (by simp) (by simp)

/-! ## Columns -/

/-- Where a numbered line shows a column of the line: behind the number, a colon and a space. -/
def columnIndex (number column : Nat) : Nat := (lineNumber number).length + 1 + column

/-- A column beyond the last character of a line is the line break. -/
theorem getElem?_listingLine (number : Nat) (text : List Char) (hcolumn : 0 < column) :
    (listingLine number text).toList[columnIndex number column]? =
      (text ++ ['\n'])[column - 1]? := by
  obtain ⟨k, rfl⟩ := Nat.exists_eq_add_of_le' hcolumn
  have hindex : columnIndex number (k + 1) = (lineNumber number).toList.length + (k + 2) := by
    rw [columnIndex, String.length_toList]
    omega
  rw [toList_listingLine, hindex, List.append_assoc, List.getElem?_append_right (by omega),
    Nat.add_sub_cancel_left]
  rfl

theorem getElem?_caretLine {k : Nat} (hcolumn : 0 < column) :
    (caretLine column).toList[k]? = some '^' ↔ k = 4 + column := by
  have hchars : (caretLine column).toList =
      List.replicate 5 ' ' ++ List.replicate (column - 1) '-' ++ '^' :: ['\n'] := by
    rw [toList_caretLine]
    simp
  rw [hchars]
  grind

/-- A column is shown to the right of the caret by the digits beyond three of the number. -/
theorem columnIndex_eq (number column : Nat) :
    columnIndex number column = 4 + column + ((Nat.toDigits 10 number).length - 3) := by
  rw [columnIndex, length_lineNumber]
  omega

theorem columnIndex_eq_iff : columnIndex number column = 4 + column ↔ number < 1000 := by
  have hdigits : (Nat.toDigits 10 number).length ≤ 3 ↔ number < 10 ^ 3 :=
    Nat.length_toDigits_le_iff (by decide) (by decide)
  rw [columnIndex_eq]
  omega

/-! ## The lines of a listing -/

def headLines (message : String) (p : Position) : List String :=
  ["PARSER ERROR:\n", "\t'" ++ message ++ "'\n",
    "\tat line " ++ toString p.line ++ " and column " ++ toString p.column ++ ".\n"]

theorem join_headLines (message : String) (p : Position) :
    String.join (headLines message p) = listingHead message p := by
  have hhead : ∀ first second last place : String,
      String.join [first, second ++ message ++ last, place ++ toString p.line ++ " and column " ++
        toString p.column ++ ".\n"] = (first ++ second) ++ message ++ (last ++ place) ++
        toString p.line ++ " and column " ++ toString p.column ++ ".\n" := fun _ _ _ _ => by
    simp only [String.join_cons, String.join_nil, String.append_assoc, String.append_empty]
  exact hhead "PARSER ERROR:\n" "\t'" "'\n" "\tat line "

theorem headLines_spec (hmessage : '\n' ∉ message.toList) (p : Position) :
    ∀ l ∈ headLines message p, IsLine l ∧ leading l < 5 := by
  have hnumber := fun n => (word_toDigits n).2.2
  simp only [headLines, List.forall_mem_cons]
  refine ⟨⟨⟨"PARSER ERROR:".toList, by decide, by decide⟩, by decide⟩,
    ⟨⟨'\t' :: '\'' :: message.toList ++ ['\''], by simp, by simp [hmessage]⟩, by simp [leading]⟩,
    ⟨⟨"\tat line ".toList ++ (toString p.line).toList ++ " and column ".toList ++
      (toString p.column).toList ++ ['.'], by simp, by simp [hnumber]⟩, by simp [leading]⟩,
    fun _ h => nomatch h⟩

/-- The lines of a text in a listing for one of them: an empty last one only if it is that line. -/
def shownFor (lines : List (List Char)) (line : Nat) : List (List Char) :=
  if line < lines.length ∧ lines.getLast? = some [] then lines.dropLast else lines

theorem newline_notMem_shownFor (hstray : strayReturns source.toList source.toList.length = 0)
    (line : Nat) : ∀ text ∈ (shownFor (linesOf source.toList) line).map (List.map listedChar),
      '\n' ∉ text := by
  intro text htext
  obtain ⟨text, hmem, rfl⟩ := List.mem_map.mp htext
  have hlines : text ∈ split '\n' source.toList := by
    rw [split_eq_linesOf hstray]
    rw [shownFor] at hmem
    split at hmem
    · exact List.dropLast_subset _ hmem
    · exact hmem
  have hbreak := not_mem_of_mem_split hlines
  simpa [listedChar_eq_feed_iff] using hbreak

theorem numbered_spec {lines : List (List Char)} (h : ∀ text ∈ lines, '\n' ∉ text)
    (number : Nat) : ∀ l ∈ numbered number lines, IsLine l ∧ leading l < 5 := by
  induction lines generalizing number with
  | nil => exact fun _ h => nomatch h
  | cons text lines ih =>
    rw [List.forall_mem_cons] at h
    rw [numbered_cons, List.forall_mem_cons]
    exact ⟨⟨isLine_listingLine number h.1, leading_listingLine number text⟩, ih h.2 _⟩

theorem getElem?_shownFor {lines : List (List Char)} {line : Nat} (hline : 0 < line)
    (htext : lines[line - 1]? = some text) : (shownFor lines line)[line - 1]? = some text := by
  rw [shownFor]
  split
  · next h => rw [List.getElem?_dropLast, if_pos (by omega), htext]
  · exact htext

/-- The lines that are shown are made up as far as the text has an empty last one. -/
theorem shownLines_eq (hstray : strayReturns source.toList source.toList.length = 0)
    (hline : 0 < p.line) (hle : p.line ≤ (linesOf source.toList).length) :
    shownLines source p = (shownFor (linesOf source.toList) p.line).map (List.map listedChar) := by
  have hsplit : split '\n' (source.toList.map listedChar) =
      (linesOf source.toList).map (List.map listedChar) := by
    rw [split_map listedChar_eq_feed_iff, split_eq_linesOf hstray]
  rw [shownLines, listedLines, hsplit]
  generalize linesOf source.toList = lines at hle
  have hlast : (lines.map (List.map listedChar)).getLast? = some [] ↔
      lines.getLast? = some [] := by
    rw [List.getLast?_map]
    cases lines.getLast? <;> simp
  simp only [shownFor, List.length_map, hlast]
  by_cases hempty : lines.getLast? = some []
  · rcases Nat.lt_or_eq_of_le hle with hlt | heq
    · rw [if_pos ⟨by omega, hempty⟩, if_pos ⟨hlt, hempty⟩, List.length_dropLast, List.length_map,
        Nat.sub_eq_zero_of_le (by omega), List.replicate_zero, List.append_nil, List.map_dropLast]
    · have hright : ¬(p.line < lines.length ∧ lines.getLast? = some []) := fun h =>
        Nat.ne_of_lt h.1 heq
      rw [if_neg hright]
      split
      · -- the position is on the empty last line, which is left out and then made up again
        rw [List.length_dropLast, List.length_map, show p.line - (lines.length - 1) = 1 by omega]
        exact List.dropLast_append_getLast? _ (hlast.mpr hempty)
      · rw [List.length_map, heq, Nat.sub_self, List.replicate_zero, List.append_nil]
  · rw [if_neg (fun h => hempty h.2), if_neg (fun h => hempty h.2), List.length_map,
      Nat.sub_eq_zero_of_le hle, List.replicate_zero, List.append_nil]

/-- The listing for a position on a line of the text: the head, all lines with their numbers, and
one caret line below that line. -/
theorem listing_rows (message : String)
    (hstray : strayReturns source.toList source.toList.length = 0)
    (hline : 0 < p.line) (htext : (linesOf source.toList)[p.line - 1]? = some text) :
    ∃ above below,
      numbered 1 ((shownFor (linesOf source.toList) p.line).map (List.map listedChar)) =
        above ++ listingLine p.line (text.map listedChar) :: below ∧ above.length + 1 = p.line ∧
      listing source message p = String.join (headLines message p ++ (above ++
        listingLine p.line (text.map listedChar) :: caretLine p.column :: below)) := by
  have hlt := (List.getElem?_eq_some_iff.mp htext).1
  have hlisting : listing source message p = _ := listing_eq hline
  rw [shownLines_eq hstray hline (by omega)] at hlisting
  have hshown := getElem?_shownFor hline htext
  generalize shownFor (linesOf source.toList) p.line = shown at *
  obtain ⟨k, hk⟩ := Nat.exists_eq_add_of_le' hline
  rw [hk, Nat.add_sub_cancel] at hshown
  have hlength := (List.getElem?_eq_some_iff.mp hshown).1
  have hrow : numbered 1 ((shown.map (List.map listedChar)).take p.line) =
      numbered 1 ((shown.take k).map (List.map listedChar)) ++
        [listingLine p.line (text.map listedChar)] := by
    rw [← List.map_take, hk, List.take_add_one, hshown, List.map_append, numbered_append,
      List.length_map, List.length_take_of_le (by omega), Nat.add_comm 1 k]
    rfl
  refine ⟨numbered 1 ((shown.take k).map (List.map listedChar)),
    numbered (p.line + 1) ((shown.map (List.map listedChar)).drop p.line), ?_, ?_, ?_⟩
  · have hall := numbered_append 1 ((shown.map (List.map listedChar)).take p.line)
      ((shown.map (List.map listedChar)).drop p.line)
    rw [List.take_append_drop, List.length_take_of_le (by rw [List.length_map]; omega), hrow,
      List.append_assoc, Nat.add_comm 1] at hall
    exact hall
  · rw [numbered, List.length_map, List.length_zipIdx, List.length_map,
      List.length_take_of_le (by omega), hk]
  · rw [hlisting, hrow, ← join_headLines, ← String.join_append, List.append_assoc]
    rfl

/-- In a text without carriage returns that stand alone, the listing for a position on a line has a
head, all lines of the text in order with their numbers, an empty last one only if the position is
on it, and directly below the line of the position the only line that begins with five spaces.  The
caret in it stands to the left of the character of the column by the digits beyond three of the
number of the line, so that it stands below this character on the first 999 lines only. -/
theorem listing_caret (hstray : strayReturns source.toList source.toList.length = 0)
    (hmessage : '\n' ∉ message.toList) (hline : 0 < p.line)
    (htext : (linesOf source.toList)[p.line - 1]? = some text) (hcolumn : 0 < p.column)
    (hle : p.column ≤ text.length + 1) :
    (∃ above below,
      numbered 1 ((shownFor (linesOf source.toList) p.line).map (List.map listedChar)) =
        above ++ listingLine p.line (text.map listedChar) :: below ∧ above.length + 1 = p.line ∧
      listing source message p = String.join (headLines message p ++ (above ++
        listingLine p.line (text.map listedChar) :: caretLine p.column :: below)) ∧
      (∀ l ∈ headLines message p ++ (above ++ listingLine p.line (text.map listedChar) :: below),
        IsLine l ∧ leading l < 5) ∧
      IsLine (caretLine p.column) ∧ leading (caretLine p.column) = 5) ∧
    (∃ c, (text.map listedChar ++ ['\n'])[p.column - 1]? = some c ∧
      (listingLine p.line (text.map listedChar)).toList[columnIndex p.line p.column]? = some c) ∧
    (∀ k, (caretLine p.column).toList[k]? = some '^' ↔ k = 4 + p.column) ∧
    columnIndex p.line p.column = 4 + p.column + ((Nat.toDigits 10 p.line).length - 3) ∧
    (columnIndex p.line p.column = 4 + p.column ↔ p.line < 1000) := by
  obtain ⟨above, below, hall, hlength, hlisting⟩ := listing_rows message hstray hline htext
  have hnumbered := numbered_spec (newline_notMem_shownFor hstray p.line) 1
  rw [hall] at hnumbered
  have hlt : p.column - 1 < (text.map listedChar ++ ['\n']).length := by
    rw [List.length_append, List.length_map, List.length_singleton]
    omega
  refine ⟨⟨above, below, hall, hlength, hlisting,
    List.forall_mem_append.mpr ⟨headLines_spec hmessage p, hnumbered⟩, isLine_caretLine _,
    leading_caretLine _⟩, ⟨_, List.getElem?_eq_getElem hlt, ?_⟩,
    fun _ => getElem?_caretLine hcolumn, columnIndex_eq _ _, columnIndex_eq_iff⟩
  rw [getElem?_listingLine _ _ hcolumn, List.getElem?_eq_getElem hlt]

/-- A text of which the second line is shown with its carriage return as a space. -/
theorem listing_caret_windows :
    (∃ c, (" a = 1 ? 2;\r".toList.map listedChar ++ ['\n'])[7]? = some c ∧
      (listingLine 2 (" a = 1 ? 2;\r".toList.map listedChar)).toList[columnIndex 2 8]? = some c) ∧
    (columnIndex 2 8 = 4 + 8 ↔ 2 < 1000) := by
  have hstray : strayReturns "#r\x7b\n a = 1 ? 2;\r\n\x7d".toList
      "#r\x7b\n a = 1 ? 2;\r\n\x7d".toList.length = 0 := by
    decide +kernel
  have htext : (linesOf "#r\x7b\n a = 1 ? 2;\r\n\x7d".toList)[1]? =
      some " a = 1 ? 2;\r".toList := by
    decide +kernel
  have hmessage : '\n' ∉ "unexpected character".toList := by decide
  have hcaret := listing_caret (p := ⟨11, 2, 8⟩) hstray hmessage (by decide) htext (by decide)
    (by decide)
  exact ⟨hcaret.2.1, hcaret.2.2.2.2⟩

/-! ## A line with four digits -/

def distantSource (n : Nat) : String := String.ofList (List.replicate n '\n' ++ ['?'])

theorem linesOf_distantSource (n : Nat) :
    linesOf (distantSource n).toList = List.replicate n [] ++ [['?']] := by
  rw [distantSource, String.toList_ofList]
  induction n with
  | zero => rfl
  | succ n ih =>
    rw [linesOf] at ih
    rw [linesOf, List.replicate_succ, List.cons_append, linesBy, if_pos (by simp [endsLine]), ih]
    rfl

theorem getElem?_distantSource (n : Nat) :
    (linesOf (distantSource n).toList)[n]? = some ['?'] := by
  simp [linesOf_distantSource]

theorem strayReturns_distantSource (n k : Nat) : strayReturns (distantSource n).toList k = 0 :=
  strayReturns_eq_zero (by simp [distantSource]) k

/-- The listing for the question mark ends with its line and the caret. -/
theorem listing_distantSource (n : Nat) (message : String) : ∃ above : List String,
    above.length = n + 3 ∧ listing (distantSource n) message ⟨n, n + 1, 1⟩ =
      String.join (above ++ [listingLine (n + 1) ['?'], caretLine 1]) := by
  obtain ⟨above, below, hall, hlength, hlisting⟩ :=
    listing_rows (p := ⟨n, n + 1, 1⟩) message (strayReturns_distantSource n _) n.succ_pos
      (getElem?_distantSource n)
  have hbelow : below = [] := by
    have hcount := congrArg List.length hall
    simp only [shownFor, linesOf_distantSource, numbered, List.length_map, List.length_zipIdx,
      List.length_append, List.length_cons, List.length_replicate, List.length_nil, Nat.lt_irrefl,
      false_and, if_false] at hcount hlength
    exact List.eq_nil_of_length_eq_zero (by omega)
  subst hbelow
  refine ⟨headLines message ⟨n, n + 1, 1⟩ ++ above, ?_, ?_⟩
  · have hhead : (headLines message ⟨n, n + 1, 1⟩).length = 3 := rfl
    rw [List.length_append, hhead]
    exact (Nat.add_comm ..).trans (congrArg (· + 3) (Nat.succ.inj hlength))
  · rw [hlisting, List.append_assoc]
    rfl

/-- On line 1000 the caret stands below the space before the character that it is for. -/
theorem listing_caret_left : (linesOf (distantSource 999).toList)[999]? = some ['?'] ∧
    strayReturns (distantSource 999).toList (distantSource 999).toList.length = 0 ∧
    (∃ above : List String, above.length = 1002 ∧
      listing (distantSource 999) "" ⟨999, 1000, 1⟩ =
        String.join (above ++ ["1000: ?\n", "     ^\n"])) ∧
    "1000: ?\n".toList[6]? = some '?' ∧ "     ^\n".toList[5]? = some '^' :=
  ⟨getElem?_distantSource 999, strayReturns_distantSource 999 _, listing_distantSource 999 "",
    by decide, by decide⟩

end Formulary

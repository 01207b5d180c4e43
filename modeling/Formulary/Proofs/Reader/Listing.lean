import Formulary.Proofs.Reader.Failure
import Formulary.Proofs.Text.Lines

/-!
# Listings of a text

A listing numbers the lines of a text and has a caret below the line of a position.  Its lines end
at line feeds, those of the text also at carriage returns that stand alone: the listing agrees with
the line of a failure as far as there are none.

* `numbered`, `shownLines`: the numbered lines of a listing.
* `listing_eq`: the caret is directly below the line of the position.
* `shownLines_feeds`, `shownLines_of_strayReturns`: the line on which a character is shown.
* `Tree.listing_of_unexpected`: the line of a character that is rejected, in the listing.
* `Tree.not_listed_of_return`: a text of which the listing shows another line above the caret.
-/

namespace Formulary

variable {source message : String} {p : Position}

/-! ## The lines of a listing -/

def listingHead (message : String) (p : Position) : String :=
  "PARSER ERROR:\n\t'" ++ message ++ "'\n\tat line " ++ toString p.line ++ " and column " ++
    toString p.column ++ ".\n"

def numbered (number : Nat) (lines : List (List Char)) : List String :=
  (lines.zipIdx number).map fun (line, n) => listingLine n line

/-- The lines that are shown: those of the text, and empty ones up to the line of the position. -/
def shownLines (source : String) (p : Position) : List (List Char) :=
  listedLines source ++ List.replicate (p.line - (listedLines source).length) []

theorem numbered_cons (number : Nat) (line : List Char) (lines : List (List Char)) :
    numbered number (line :: lines) = listingLine number line :: numbered (number + 1) lines := rfl

theorem numbered_append (number : Nat) (lines lines' : List (List Char)) :
    numbered number (lines ++ lines') =
      numbered number lines ++ numbered (number + lines.length) lines' := by
  rw [numbered, List.zipIdx_append, List.map_append, numbered, numbered]

theorem numberedLines_cons (p : Position) (number : Nat) (line : List Char)
    (lines : List (List Char)) : numberedLines p number (line :: lines) =
      (if number = p.line then [listingLine number line, caretLine p.column]
        else [listingLine number line]) ++ numberedLines p (number + 1) lines := rfl

theorem numberedLines_of_lt {number : Nat} (h : p.line < number) (lines : List (List Char)) :
    numberedLines p number lines = numbered number lines := by
  induction lines generalizing number with
  | nil => rfl
  | cons line lines ih =>
    rw [numberedLines_cons, if_neg (by omega), ih (by omega)]
    rfl

variable {lines : List (List Char)} {number : Nat}

theorem numberedLines_of_le (h : number + lines.length ≤ p.line) :
    numberedLines p number lines = numbered number lines := by
  induction lines generalizing number with
  | nil => rfl
  | cons line lines ih =>
    rw [List.length_cons] at h
    rw [numberedLines_cons, if_neg (by omega), ih (by omega)]
    rfl

theorem numberedLines_eq (hle : number ≤ p.line) (hlt : p.line < number + lines.length) :
    numberedLines p number lines = numbered number (lines.take (p.line + 1 - number)) ++
      caretLine p.column :: numbered (p.line + 1) (lines.drop (p.line + 1 - number)) := by
  induction lines generalizing number with
  | nil => exact absurd hlt (Nat.not_lt.mpr hle)
  | cons line lines ih =>
    rw [List.length_cons] at hlt
    obtain ⟨k, hk⟩ := Nat.exists_eq_add_of_le hle
    rw [numberedLines_cons, show p.line + 1 - number = k + 1 by omega, List.take_succ_cons,
      List.drop_succ_cons, numbered_cons]
    by_cases hline : number = p.line
    · obtain rfl : k = 0 := by omega
      rw [if_pos hline, numberedLines_of_lt (by omega), hline]
      rfl
    · rw [if_neg hline, ih (by omega) (by omega), show p.line + 1 - (number + 1) = k by omega]
      rfl

/-- Lines up to the position are made up where the text has none. -/
theorem trailingLines_of_lt (h : lines.length < p.line) :
    trailingLines p lines.length = numbered (lines.length + 1)
      (List.replicate (p.line - lines.length) []) ++ [caretLine p.column] := by
  rw [trailingLines, if_pos h, numbered, List.append_cancel_right_eq]
  refine List.ext_getElem (by simp) fun i hi hi' => ?_
  simp

/-- A listing shows lines with their numbers and the caret directly below the line of the
position. -/
theorem listing_eq (hline : 0 < p.line) : listing source message p = listingHead message p ++
    String.join (numbered 1 ((shownLines source p).take p.line) ++
      caretLine p.column :: numbered (p.line + 1) ((shownLines source p).drop p.line)) := by
  refine congrArg (listingHead message p ++ String.join ·) ?_
  rw [shownLines]
  generalize listedLines source = lines
  rcases Nat.lt_or_ge lines.length p.line with hlt | hge
  · have hlength : (lines ++ List.replicate (p.line - lines.length) []).length = p.line := by
      simp
      omega
    rw [numberedLines_of_le (by omega), trailingLines_of_lt hlt,
      List.take_of_length_le (by omega), List.drop_eq_nil_of_le (by omega), numbered_append,
      Nat.add_comm 1, List.append_assoc]
    rfl
  · rw [Nat.sub_eq_zero_of_le hge, List.replicate_zero, List.append_nil, trailingLines,
      if_neg (by omega), List.append_nil, numberedLines_eq hline (by omega), Nat.add_sub_cancel]

/-! ## The lines that are listed -/

theorem listedChar_eq_feed_iff (c : Char) : listedChar c = '\n' ↔ c = '\n' := by
  rw [listedChar]
  split
  · next h => rcases h with rfl | rfl <;> decide
  · exact Iff.rfl

theorem listedChar_of_not_blank {c : Char} (h : isBlank c = false) : listedChar c = c := by
  rw [listedChar, if_neg]
  rintro (rfl | rfl) <;> cases h

theorem listedLines_cases (source : String) :
    (split '\n' source.toList).map (List.map listedChar) = listedLines source ∨
      (split '\n' source.toList).map (List.map listedChar) = listedLines source ++ [[]] := by
  rw [listedLines, split_map listedChar_eq_feed_iff]
  split
  · next h => exact .inr (List.dropLast_append_getLast? _ h.2).symm
  · exact .inl rfl

theorem getElem?_listedLines {k : Nat} {line : List Char}
    (h : (split '\n' source.toList)[k]? = some line) (hline : line ≠ []) :
    (listedLines source)[k]? = some (line.map listedChar) := by
  have hmap : ((split '\n' source.toList).map (List.map listedChar))[k]? =
      some (line.map listedChar) := by
    rw [List.getElem?_map, h]
    rfl
  rcases listedLines_cases source with hlines | hlines
  · rwa [hlines] at hmap
  · rw [hlines, List.getElem?_append] at hmap
    split at hmap
    · exact hmap
    · have hempty : line.map listedChar = [] := List.mem_singleton.mp (List.mem_of_getElem? hmap)
      exact absurd (List.map_eq_nil_iff.mp hempty) hline

theorem getElem?_shownLines {k : Nat} {line : List Char} (p : Position)
    (h : (listedLines source)[k]? = some line) : (shownLines source p)[k]? = some line := by
  rw [shownLines, List.getElem?_append_left (List.getElem?_eq_some_iff.mp h).1, h]

variable {c : Char}

/-- The line on which a character is shown: lines are counted by line feeds. -/
theorem shownLines_feeds (hc : source.toList[p.offset]? = some c) (hblank : isBlank c = false) :
    ∃ text, (shownLines source p)[feeds source.toList p.offset]? = some text ∧ c ∈ text := by
  obtain ⟨text, hat, hcolumn⟩ := linesBy_getElem hc (isFeed_of_not_blank hc hblank)
  rw [← split_eq_linesBy] at hat
  have hmem : c ∈ text := List.mem_of_getElem? hcolumn
  refine ⟨text.map listedChar,
    getElem?_shownLines p (getElem?_listedLines hat (List.ne_nil_of_mem hmem)), ?_⟩
  rw [← listedChar_of_not_blank hblank]
  exact List.mem_map_of_mem hmem

/-- Without carriage returns that stand alone a character is shown on its line and in its column,
and so is every line of the text. -/
theorem shownLines_of_strayReturns (hc : source.toList[p.offset]? = some c)
    (hblank : isBlank c = false) (hplace : p = .ofOffset source.toList p.offset)
    (hstray : strayReturns source.toList source.toList.length = 0) :
    ((linesOf source.toList).map (List.map listedChar) = shownLines source p ∨
      (linesOf source.toList).map (List.map listedChar) = shownLines source p ++ [[]]) ∧
    ∃ text, (linesOf source.toList)[p.line - 1]? = some text ∧ text[p.column - 1]? = some c ∧
      (shownLines source p)[p.line - 1]? = some (text.map listedChar) := by
  have hline : p.line = lineAt source.toList p.offset := congrArg Position.line hplace
  have hcolumn : p.column = columnAt source.toList p.offset := congrArg Position.column hplace
  obtain ⟨text, hat, hin⟩ := linesOf_place hc (endsLine_of_not_blank hc hblank)
  rw [← hline] at hat
  rw [← hcolumn] at hin
  have hlisted : (listedLines source)[p.line - 1]? = some (text.map listedChar) := by
    refine getElem?_listedLines ?_ (List.ne_nil_of_mem (List.mem_of_getElem? hin))
    rwa [split_eq_linesOf hstray]
  -- the line of the position is listed, so that no line is made up
  have hshown : shownLines source p = listedLines source := by
    have hlt := (List.getElem?_eq_some_iff.mp hlisted).1
    rw [shownLines, Nat.sub_eq_zero_of_le (by omega), List.replicate_zero, List.append_nil]
  refine ⟨?_, text, hat, hin, getElem?_shownLines p hlisted⟩
  rw [hshown, ← split_eq_linesOf hstray]
  exact listedLines_cases source

namespace Reader

variable {r : Reader} {e : ParseError}

/-- A character that is rejected is no blank: in strings blanks are taken up, elsewhere skipped. -/
theorem not_blank_of_accept {d : Char} (h : r.accept c = .error e)
    (hfault : e.fault = .unexpected d) : isBlank c = false := by
  obtain ⟨hblank, hstep⟩ := accept_error h
  refine hblank ?_
  rw [← Bool.not_eq_true]
  intro hstring
  have hescape := badEscape_of_inString (r := r.advance c) hstring hstep
  rw [hfault] at hescape
  cases hescape

theorem fault_of_blame {added : Bool} {rest : List Char} {p : Position}
    (h : blame added rest e = ⟨.unexpected c, p⟩) : e.fault = .unexpected c := by
  rw [blame] at h
  split at h
  · split at h
    · cases h
    · rw [h]
  · rw [h]

end Reader

namespace Tree

variable {ops : List String} {filename : Option String} {c : Char}

theorem not_blank_of_unexpected (h : Tree.read source ops filename = .error ⟨.unexpected c, p⟩) :
    isBlank c = false := by
  rw [Tree.read_eq] at h
  rcases Reader.run_cases (prepare source).2 .start (prepare source).1 with
    ⟨r, -, hrun⟩ | ⟨mid, d, rest, r, e, -, -, herror, hrun⟩
  · rw [hrun, Reader.finish] at h
    split at h <;> cases h
  · rw [hrun, Except.error.injEq] at h
    have hfault := Reader.fault_of_blame h
    have hd : d = c := by
      cases Reader.fails_of_step (Reader.accept_error herror).2 with
      | unexpected => exact Fault.unexpected.inj hfault
      | badEscape _ | unknownOperator _ => cases hfault
    exact hd ▸ Reader.not_blank_of_accept herror hfault

theorem place_of_unexpected (h : Tree.read source ops filename = .error ⟨.unexpected c, p⟩) :
    p = .ofOffset source.toList p.offset ∧ source.toList[p.offset]? = some c := by
  have hpoints : p.Points source [c] := by
    cases located_of_read_error h with
    | unexpected hpoints => exact hpoints
    | pastEnd _ hf | beforeEnd _ hf => rcases hf with hf | hf <;> cases hf
  refine ⟨hpoints.place, ?_⟩
  obtain ⟨rest, hrest⟩ := hpoints.word
  rw [← List.head?_drop, ← hrest]
  rfl

/-- The listing has a caret directly below the line of a character that is rejected.  The character
is on the shown line before which as many line feeds stand as before the character, so it is above
the caret by the carriage returns that stand alone before it.  In a text without such carriage
returns the lines shown are those of the text, and the character is in the line above the caret. -/
theorem listing_of_unexpected
    (h : Tree.read source ops filename = .error ⟨.unexpected c, p⟩) :
    ParseError.listing ⟨.unexpected c, p⟩ source =
        listingHead (Fault.unexpected c).message p ++
          String.join (numbered 1 ((shownLines source p).take p.line) ++ caretLine p.column ::
            numbered (p.line + 1) ((shownLines source p).drop p.line)) ∧
      p.line = feeds source.toList p.offset + strayReturns source.toList p.offset + 1 ∧
      (∃ text, (shownLines source p)[feeds source.toList p.offset]? = some text ∧ c ∈ text) ∧
      (strayReturns source.toList source.toList.length = 0 →
        ((linesOf source.toList).map (List.map listedChar) = shownLines source p ∨
          (linesOf source.toList).map (List.map listedChar) = shownLines source p ++ [[]]) ∧
        ∃ text, (linesOf source.toList)[p.line - 1]? = some text ∧
          text[p.column - 1]? = some c ∧
          (shownLines source p)[p.line - 1]? = some (text.map listedChar)) := by
  obtain ⟨hplace, hc⟩ := place_of_unexpected h
  have hblank := not_blank_of_unexpected h
  have hline : p.line = feeds source.toList p.offset + strayReturns source.toList p.offset + 1 := by
    rw [congrArg Position.line hplace]
    exact lineAt_eq_add _ _
  have hpos : 0 < p.line := hline ▸ Nat.succ_pos _
  exact ⟨listing_eq hpos, hline, shownLines_feeds hc hblank,
    shownLines_of_strayReturns hc hblank hplace⟩

theorem listing_of_windows_break :
    Tree.read "#r\x7b\r\n a = ?;\n\x7d" defaultOperators none =
        .error ⟨.unexpected '?', ⟨10, 2, 6⟩⟩ ∧
      ∃ text, (linesOf "#r\x7b\r\n a = ?;\n\x7d".toList)[1]? = some text ∧
        text[5]? = some '?' ∧
        (shownLines "#r\x7b\r\n a = ?;\n\x7d" ⟨10, 2, 6⟩)[1]? = some (text.map listedChar) := by
  have h : Tree.read "#r\x7b\r\n a = ?;\n\x7d" defaultOperators none =
      .error ⟨.unexpected '?', ⟨10, 2, 6⟩⟩ := by
    decide +kernel
  have hstray : strayReturns "#r\x7b\r\n a = ?;\n\x7d".toList
      "#r\x7b\r\n a = ?;\n\x7d".toList.length = 0 := by
    decide +kernel
  exact ⟨h, ((listing_of_unexpected h).2.2.2 hstray).2⟩

/-- After a carriage return that stands alone the line above the caret is empty, and no line of the
text. -/
theorem not_listed_of_return :
    Tree.read "#r\x7b\r a = ?;" defaultOperators none = .error ⟨.unexpected '?', ⟨9, 2, 6⟩⟩ ∧
      (linesOf "#r\x7b\r a = ?;".toList)[1]? = some " a = ?;".toList ∧
      shownLines "#r\x7b\r a = ?;" ⟨9, 2, 6⟩ = ["#r\x7b  a = ?;".toList, []] ∧
      ParseError.listing ⟨.unexpected '?', ⟨9, 2, 6⟩⟩ "#r\x7b\r a = ?;" =
        "PARSER ERROR:\n\t'syntax error, unexpected character '?''\n" ++
          "\tat line 2 and column 6.\n  1: #r\x7b  a = ?;\n  2: \n     -----^\n" := by
  decide +kernel

end Tree

end Formulary

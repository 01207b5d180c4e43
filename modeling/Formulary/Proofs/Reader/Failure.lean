import Formulary.Proofs.Tree.Positions

/-!
# Where the reading of a text fails

A text that cannot be read has a fault with a place.  A fault of the text itself is at the character
or the operator in question, but an escape that breaks off at the end of a line is at column 0 of
the next one.  A text that is too short fails at its end only where the point that was added to it
is rejected: a point that has been taken up is counted as a character of the text, and where none
was added, the column is one less than that of the end.

* `ParseError.Located`: the places of the faults.
* `ParseError.Coherent`: a fault is at the line and column of an offset of the text, and at the end
  of the text if the text is too short.
* `Tree.located_of_read_error`: every failure of a reading is located.
* `Tree.not_coherent_of_number`: a text of which the failure is not coherent.
-/

namespace Formulary

variable {source : String} {ops : List String} {filename : Option String} {e : ParseError}
  {r : Reader} {c : Char} {n : Nat}

namespace ParseError

/-- The place of a failure in a text. -/
inductive Located (source : String) : ParseError → Prop
  /-- A character is rejected where it stands. -/
  | unexpected {c : Char} {p : Position} : p.Points source [c] → Located source ⟨.unexpected c, p⟩
  /-- An operator is unknown where it stands. -/
  | unknownOperator {text : String} {registered : List String} {c : Char} {p : Position} :
      text.toList ≠ [] → p.Points source text.toList →
        Located source ⟨.unknownOperator text registered c, p⟩
  /-- The character after a backslash, or the point added at the end, makes no escape. -/
  | badEscape {c : Char} {n : Nat} : n ≤ source.toList.length → (prepare source).1[n]? = some c →
      Located source ⟨.badEscape c, .ofOffset source.toList n⟩
  /-- A line break makes no escape; it is counted as part of the next line already. -/
  | brokenEscape {n : Nat} : n < source.toList.length → endsLine (source.toList.drop n) →
      Located source ⟨.badEscape '\n', ⟨n, lineAt source.toList n + 1, 0⟩⟩
  /-- The point that was added to the text is rejected. -/
  | atEnd : addedPoint source = ['.'] →
      Located source ⟨.unexpectedEnd, .ofOffset source.toList source.toList.length⟩
  /-- The point that was added to the text has been taken up by a token. -/
  | pastEnd {f : Fault} : addedPoint source = ['.'] → f = .unterminatedString ∨ f = .unexpectedEnd →
      Located source ⟨f, ⟨source.toList.length + 1, lineAt source.toList source.toList.length,
        columnAt source.toList source.toList.length⟩⟩
  /-- The text ends with a point of its own, but goes on. -/
  | beforeEnd {f : Fault} : addedPoint source = [] → f = .unterminatedString ∨ f = .unexpectedEnd →
      Located source ⟨f, ⟨source.toList.length, lineAt source.toList source.toList.length,
        columnAt source.toList source.toList.length - 1⟩⟩

/-- A failure is at an offset of the text, with the line and the column of the offset, and at the
end of a text that is too short. -/
def Coherent (source : String) (e : ParseError) : Prop :=
  e.position = .ofOffset source.toList e.position.offset ∧
    e.position.offset ≤ source.toList.length ∧
    (e.fault = .unterminatedString ∨ e.fault = .unexpectedEnd →
      e.position.offset = source.toList.length)

instance (source : String) (e : ParseError) : Decidable (e.Coherent source) :=
  inferInstanceAs (Decidable (_ ∧ _ ∧ (_ ∨ _ → _)))

/-- A failure at a character is coherent unless the character breaks a line. -/
theorem Located.coherent (h : Located source e) (hstring : e.fault ≠ .unterminatedString)
    (hend : e.fault ≠ .unexpectedEnd) (hcolumn : e.position.column ≠ 0) : e.Coherent source := by
  have hfault : ¬ (e.fault = .unterminatedString ∨ e.fault = .unexpectedEnd) :=
    not_or.mpr ⟨hstring, hend⟩
  cases h with
  | unexpected hpoints =>
    exact ⟨hpoints.place, (hpoints.offset_lt (List.cons_ne_nil _ _)).le, fun h => absurd h hfault⟩
  | unknownOperator htext hpoints =>
    exact ⟨hpoints.place, (hpoints.offset_lt htext).le, fun h => absurd h hfault⟩
  | badEscape hle _ => exact ⟨rfl, hle, fun h => absurd h hfault⟩
  | brokenEscape _ _ => exact absurd rfl hcolumn
  | atEnd _ => exact absurd rfl hend
  | pastEnd _ hf | beforeEnd _ hf => exact absurd hf hfault

end ParseError

theorem lineAt_prepare (h : n ≤ source.toList.length) :
    lineAt (prepare source).1 n = lineAt source.toList n :=
  congrArg Position.line (Position.ofOffset_prepare h)

theorem columnAt_prepare (h : n ≤ source.toList.length) :
    columnAt (prepare source).1 n = columnAt source.toList n :=
  congrArg Position.column (Position.ofOffset_prepare h)

namespace Reader

open ParseError (Located)

theorem badEscape_of_inString (hstring : r.phase.inString) (h : r.step c = .error e) :
    e.fault = .badEscape c := by
  rw [step] at h
  cases hp : r.phase with
  | string =>
    simp only [hp] at h
    split at h
    · cases h
    · split at h <;> cases h
  | stringEscape =>
    simp only [hp, unescape] at h
    split at h
    · cases h
    · split at h
      · cases h
      · cases h
        rfl
  | _ =>
    rw [hp] at hstring
    cases hstring

theorem blame_unexpected (added : Bool) (rest : List Char) (c : Char) (p : Position) :
    blame added rest ⟨.unexpected c, p⟩ =
      if added && rest.isEmpty then ⟨.unexpectedEnd, p⟩ else ⟨.unexpected c, p⟩ := rfl

theorem located_unexpected {rest : List Char} (hc : (prepare source).1[n]? = some c)
    (hrest : (prepare source).1.length = n + 1 + rest.length) (hblank : isBlank c = false) :
    Located source (blame (prepare source).2 rest
      ⟨.unexpected c, .ofOffset (prepare source).1 n⟩) := by
  rw [length_prepare] at hrest
  rw [blame_unexpected]
  rcases lt_or_added hc with hlt | ⟨rfl, hadded, rfl⟩
  · rw [if_neg]
    · exact .unexpected (points_of_getElem? hc rfl hlt hblank)
    · rw [Bool.and_eq_true, added_eq_true_iff, List.isEmpty_iff]
      rintro ⟨hadded, rfl⟩
      rw [hadded, List.length_singleton, List.length_nil] at hrest
      omega
  · obtain rfl : rest = [] := by
      rw [hadded, List.length_singleton] at hrest
      exact List.length_eq_zero_iff.mp (by omega)
    rw [if_pos (by rw [added_eq_true_iff.mpr hadded]; rfl),
      Position.ofOffset_prepare (Nat.le_refl _)]
    exact .atEnd hadded

theorem located_badEscape (hc : (prepare source).1[n]? = some c) :
    Located source ⟨.badEscape c, if c = '\n' then ⟨n, lineAt (prepare source).1 n + 1, 0⟩
      else .ofOffset (prepare source).1 n⟩ := by
  have hplace := lt_or_added hc
  have hle : n ≤ source.toList.length := by omega
  split
  · next hfeed =>
    subst hfeed
    have hlt : n < source.toList.length := hplace.resolve_right fun h => nomatch h.2.2
    rw [lineAt_prepare hle]
    refine .brokenEscape hlt ?_
    rw [← endsLine_prepare hlt, endsLine_getElem? (prepare_ne source) hc]
    rfl
  · rw [Position.ofOffset_prepare hle]
    exact .badEscape hle hc

theorem Sited.located_operator {b : Bool} {registered : List String}
    (h : r.Sited (prepare source).1 n b) (hphase : r.phase = .operator)
    (hn : n ≤ source.toList.length) :
    Located source ⟨.unknownOperator r.token registered c, r.tokenStart⟩ := by
  rw [Sited, hphase] at h
  obtain ⟨k, hstart, -, w, bs, hw, -, -, hdrop⟩ := h
  obtain rfl := hw.eq_of_ne (by decide)
  refine .unknownOperator hw.ne_nil ?_
  rw [hstart]
  exact ((Stands.of_eq hw.ne_nil hdrop).mono hn).points rfl (hw.not_blank (by decide))

/-- A step that fails in a run does so at a place in the text, or at its end. -/
theorem Fails.located {rest : List Char} (h : (r.advance c).Fails c e)
    (hstring : r.phase.inString → e.fault = .badEscape c)
    (hblank : r.phase.inString = false → isBlank c = false)
    (hbefore : r.Before (prepare source).1 n) (hsited : r.Sited (prepare source).1 n r.afterBlank)
    (hc : (prepare source).1[n]? = some c)
    (hrest : (prepare source).1.length = n + 1 + rest.length) :
    Located source (blame (prepare source).2 rest e) := by
  have hcursor := hbefore.advance c
  cases h with
  | unexpected =>
    have hread : r.phase.inString = false := by
      rw [← Bool.not_eq_true]
      exact fun h => nomatch hstring h
    have hnot := hblank hread
    rw [if_neg (by rintro rfl; cases hnot)] at hcursor
    rw [hcursor]
    exact located_unexpected hc hrest hnot
  | badEscape _ =>
    have hlocated := located_badEscape hc
    rwa [← hcursor] at hlocated
  | unknownOperator hphase =>
    have hle : n ≤ source.toList.length := by
      have := lt_or_added hc
      omega
    exact hsited.located_operator hphase hle

theorem located_finish (h : r.finish = .error e)
    (hbefore : r.Before (prepare source).1 (prepare source).1.length) :
    Located source e := by
  have hfault : (e.fault = .unterminatedString ∨ e.fault = .unexpectedEnd) ∧
      e.position = r.cursor := by
    rw [finish] at h
    split at h <;> cases h
    · exact ⟨.inl rfl, rfl⟩
    · exact ⟨.inl rfl, rfl⟩
    · exact ⟨.inr rfl, rfl⟩
  obtain ⟨f, p⟩ := e
  obtain ⟨hf, rfl⟩ := hfault
  rw [Before, length_prepare] at hbefore
  rcases addedPoint_cases source with hadded | hadded
  · have hpoint : (prepare source).1[source.toList.length]? = some '.' := by
      rw [getElem?_prepare_length, hadded]
      rfl
    have hends := endsLine_getElem? (prepare_ne source) hpoint
    rw [hadded, List.length_singleton, lineAt_succ, columnAt_succ, hends,
      lineAt_prepare (Nat.le_refl _), columnAt_prepare (Nat.le_refl _)] at hbefore
    rw [hbefore]
    exact .pastEnd hadded hf
  · rw [hadded, List.length_nil, Nat.add_zero, lineAt_prepare (Nat.le_refl _),
      columnAt_prepare (Nat.le_refl _)] at hbefore
    rw [hbefore]
    exact .beforeEnd hadded hf

end Reader

namespace Tree

/-- Every failure of a reading is located in its text. -/
theorem located_of_read_error (h : Tree.read source ops filename = .error e) :
    ParseError.Located source e := by
  rw [Tree.read_eq] at h
  rcases Reader.run_cases (prepare source).2 .start (prepare source).1 with
    ⟨r, hr, hrun⟩ | ⟨mid, c, rest, r, e', hcs, hr, herror, hrun⟩
  · rw [hrun] at h
    rw [List.nil_append] at hr
    exact Reader.located_finish h
      (hr.before (List.prefix_refl _) (prepare_ne source) (Reader.before_initial ..))
  · rw [hrun, Except.error.injEq] at h
    subst h
    have hprefix : mid <+: (prepare source).1 := ⟨c :: rest, hcs.symm⟩
    obtain ⟨hblank, hstep⟩ := Reader.accept_error herror
    refine Reader.Fails.located (Reader.fails_of_step hstep)
      (fun hstring => Reader.badEscape_of_inString (r := r.advance c) hstring hstep) hblank
      (hr.before hprefix (prepare_ne source) (Reader.before_initial ..))
      (hr.sited hprefix (prepare_ne source)) ?_ ?_
    · rw [hcs]
      simp
    · rw [hcs]
      simp [Nat.add_assoc, Nat.add_comm 1]

theorem located_of_number : ∃ e, Tree.read "#r\x7b a = 1" [] none = .error e ∧
    ParseError.Located "#r\x7b a = 1" e := by
  have h : Tree.read "#r\x7b a = 1" [] none = .error ⟨.unexpectedEnd, ⟨10, 1, 10⟩⟩ := by
    decide +kernel
  exact ⟨_, h, located_of_read_error h⟩

/-- Where a number may go on after the text, the failure is after the end of the text. -/
theorem not_coherent_of_number : ∃ e, Tree.read "#r\x7b a = 1" [] none = .error e ∧
    e.position.offset = 10 ∧ ¬ e.Coherent "#r\x7b a = 1" :=
  ⟨⟨.unexpectedEnd, ⟨10, 1, 10⟩⟩, by decide +kernel, rfl, by decide +kernel⟩

/-- A point that ends the text is part of a number, and the failure is at its column. -/
example : Tree.read "#r\x7b a = 1." [] none = .error ⟨.unexpectedEnd, ⟨10, 1, 10⟩⟩ := by
  decide +kernel

/-- A line break after a backslash is at column 0. -/
example : Tree.read "#r\x7b a = \"\\\n\"; \x7d" [] none =
    .error ⟨.badEscape '\n', ⟨10, 2, 0⟩⟩ := by
  decide +kernel

end Tree

end Formulary

import Mathlib.Data.List.TakeDrop
import Mathlib.Data.List.TakeWhile
import Formulary.Document.Basic
import Formulary.Proofs.Text.Basic

/-!
# The characters of names and numbers

* `Digits`, `Whole`, `Pointed`, `Fractional`: the beginnings of a number.
* `isNumber_iff`: a number is whole or fractional.
* `isName_append`, `isNumber_append`: a name or number with one more character.
-/

namespace Formulary

/-! ## Numbers -/

def Digits (cs : List Char) : Prop := cs ≠ [] ∧ ∀ c ∈ cs, c.isDigit

def Sign (cs : List Char) : Prop := cs = [] ∨ cs = ['-']

def Whole (cs : List Char) : Prop := ∃ sign ds, Sign sign ∧ Digits ds ∧ cs = sign ++ ds

/-- A number up to its point. -/
def Pointed (cs : List Char) : Prop := ∃ ds, Whole ds ∧ cs = ds ++ ['.']

/-- A number with a point. -/
def Fractional (cs : List Char) : Prop := ∃ ds es, Pointed ds ∧ Digits es ∧ cs = ds ++ es

theorem Digits.append {cs : List Char} {c : Char} (h : Digits cs) (hc : c.isDigit) :
    Digits (cs ++ [c]) := by
  refine ⟨by simp, fun d hd => ?_⟩
  rcases List.mem_append.mp hd with hd | hd
  · exact h.2 d hd
  · rw [List.mem_singleton.mp hd]
    exact hc

theorem Digits.single {c : Char} (hc : c.isDigit) : Digits [c] :=
  ⟨by simp, fun d hd => by rwa [List.mem_singleton.mp hd]⟩

theorem Whole.append {cs : List Char} {c : Char} (h : Whole cs) (hc : c.isDigit) :
    Whole (cs ++ [c]) := by
  obtain ⟨sign, ds, hsign, hds, rfl⟩ := h
  exact ⟨sign, ds ++ [c], hsign, hds.append hc, by rw [List.append_assoc]⟩

theorem Whole.single {c : Char} (hc : c.isDigit) : Whole [c] :=
  ⟨[], [c], .inl rfl, .single hc, rfl⟩

theorem Whole.minus {c : Char} (hc : c.isDigit) : Whole ['-', c] :=
  ⟨['-'], [c], .inr rfl, .single hc, rfl⟩

theorem Whole.point {cs : List Char} (h : Whole cs) : Pointed (cs ++ ['.']) := ⟨cs, h, rfl⟩

theorem Pointed.append {cs : List Char} {c : Char} (h : Pointed cs) (hc : c.isDigit) :
    Fractional (cs ++ [c]) := ⟨cs, [c], h, .single hc, rfl⟩

theorem Fractional.append {cs : List Char} {c : Char} (h : Fractional cs) (hc : c.isDigit) :
    Fractional (cs ++ [c]) := by
  obtain ⟨ds, es, hds, hes, rfl⟩ := h
  exact ⟨ds, es ++ [c], hds, hes.append hc, by rw [List.append_assoc]⟩

theorem span_digits {ds : List Char} (hds : ∀ c ∈ ds, c.isDigit) (rest : List Char)
    (hrest : ∀ c, rest.head? = some c → ¬ c.isDigit) :
    (ds ++ rest).span Char.isDigit = (ds, rest) := by
  rw [List.span_eq_takeWhile_dropWhile, List.takeWhile_append_of_pos hds,
    List.dropWhile_append_of_pos hds]
  cases rest with
  | nil => simp
  | cons c rest => simp [hrest c rfl]

theorem isUnsignedNumber_iff {cs : List Char} :
    isUnsignedNumber cs ↔ Digits cs ∨ ∃ ds es, Digits ds ∧ Digits es ∧ cs = ds ++ '.' :: es := by
  constructor
  · intro h
    rw [isUnsignedNumber, List.span_eq_takeWhile_dropWhile] at h
    have hsplit := List.takeWhile_append_dropWhile (p := Char.isDigit) (l := cs)
    have hall : ∀ c ∈ cs.takeWhile Char.isDigit, c.isDigit := fun c hc =>
      List.mem_takeWhile_imp hc
    cases hrest : cs.dropWhile Char.isDigit with
    | nil =>
      rw [hrest, List.append_nil] at hsplit
      simp only [hrest, Bool.and_true, decide_eq_true_eq] at h
      rw [hsplit] at h hall
      exact .inl ⟨h, hall⟩
    | cons c es =>
      simp only [hrest, Bool.and_eq_true, decide_eq_true_eq, List.all_eq_true] at h
      obtain ⟨hne, ⟨rfl, hes⟩, hall'⟩ := h
      exact .inr ⟨_, es, ⟨hne, hall⟩, ⟨hes, hall'⟩, by rw [← hrest, hsplit]⟩
  · rintro (⟨hne, hall⟩ | ⟨ds, es, ⟨hne, hall⟩, ⟨hes, hall'⟩, rfl⟩)
    · have := span_digits hall [] (by simp)
      rw [List.append_nil] at this
      simp only [isUnsignedNumber, this]
      simpa using hne
    · have := span_digits hall ('.' :: es) (by rintro c ⟨⟩; decide)
      simp only [isUnsignedNumber, this]
      simpa [hne, hes] using hall'

theorem isNumber_iff {cs : List Char} : isNumber cs ↔ Whole cs ∨ Fractional cs := by
  have hshape : isNumber cs ↔ ∃ sign rest, Sign sign ∧ cs = sign ++ rest ∧
      isUnsignedNumber rest := by
    constructor
    · intro h
      rw [isNumber.eq_def] at h
      split at h
      · exact ⟨['-'], _, .inr rfl, rfl, h⟩
      · exact ⟨[], _, .inl rfl, rfl, h⟩
    · rintro ⟨sign, rest, rfl | rfl, rfl, h⟩
      · rw [isNumber.eq_def]
        split
        · next rest =>
          rcases isUnsignedNumber_iff.mp h with hd | ⟨ds, es, hds, -, heq⟩
          · exact absurd (hd.2 '-' (by simp)) (by decide)
          · cases ds with
            | nil => exact absurd rfl hds.1
            | cons d ds => cases heq; exact absurd (hds.2 '-' (by simp)) (by decide)
        · exact h
      · exact h
  rw [hshape]
  constructor
  · rintro ⟨sign, rest, hsign, rfl, h⟩
    rcases isUnsignedNumber_iff.mp h with hd | ⟨ds, es, hds, hes, rfl⟩
    · exact .inl ⟨sign, rest, hsign, hd, rfl⟩
    · exact .inr ⟨_, es, ⟨_, ⟨sign, ds, hsign, hds, rfl⟩, rfl⟩, hes, by simp⟩
  · rintro (⟨sign, ds, hsign, hds, rfl⟩ | ⟨_, es, ⟨_, ⟨sign, ds, hsign, hds, rfl⟩, rfl⟩, hes, rfl⟩)
    · exact ⟨sign, ds, hsign, rfl, isUnsignedNumber_iff.mpr (.inl hds)⟩
    · exact ⟨sign, ds ++ '.' :: es, hsign, by simp,
        isUnsignedNumber_iff.mpr (.inr ⟨ds, es, hds, hes, rfl⟩)⟩

theorem isNumber_chars {cs : List Char} (h : isNumber cs) :
    ∀ c ∈ cs, c.isDigit ∨ c = '-' ∨ c = '.' := by
  have hwhole : ∀ {cs : List Char}, Whole cs → ∀ c ∈ cs, c.isDigit ∨ c = '-' ∨ c = '.' := by
    rintro _ ⟨sign, ds, hsign, hds, rfl⟩ c hc
    rcases List.mem_append.mp hc with hc | hc
    · rcases hsign with rfl | rfl
      · simp at hc
      · exact .inr (.inl (List.mem_singleton.mp hc))
    · exact .inl (hds.2 c hc)
  rcases isNumber_iff.mp h with h | ⟨_, es, ⟨ds, hds, rfl⟩, hes, rfl⟩
  · exact hwhole h
  · intro c hc
    rcases List.mem_append.mp hc with hc | hc
    · rcases List.mem_append.mp hc with hc | hc
      · exact hwhole hds c hc
      · exact .inr (.inr (List.mem_singleton.mp hc))
    · exact .inl (hes.2 c hc)

/-! ## Names -/

theorem isName_chars {cs : List Char} (h : isName cs) : ∀ c ∈ cs, isNamePart c := by
  cases cs with
  | nil => simp
  | cons c cs =>
    rw [isName, Bool.and_eq_true, List.all_eq_true] at h
    rw [List.forall_mem_cons]
    exact ⟨isNamePart_of_isNameStart h.1, h.2⟩

theorem isName_single {c : Char} (hc : isNameStart c) : isName [c] := by simp [isName, hc]

theorem isName_append {cs : List Char} {c : Char} (h : isName cs) (hc : isNamePart c) :
    isName (cs ++ [c]) := by
  cases cs with
  | nil => simp [isName] at h
  | cons d cs =>
    simp only [isName, Bool.and_eq_true, List.cons_append, List.all_append, List.all_cons,
      List.all_nil, Bool.and_true] at h ⊢
    exact ⟨h.1, h.2, hc⟩

end Formulary

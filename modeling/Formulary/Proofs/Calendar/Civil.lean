import Formulary.Calendar.Civil

/-!
# Days and their civil dates

A day lies in exactly one year, and in one month of that year, so that its year, its month and its
place in the month name it again.

* `Civil.yearStart_succ`, `Civil.yearStart_yearOf`: the days of a year.
* `Civil.splitMonths_spec`: the month of a day and its place there.
* `Civil.ofYearMonthDay?_day`: the day of the civil date of a day.
-/

namespace Formulary.Civil

variable {year day : Int} {days : Nat} {lengths : List Nat}

/-! ## Years -/

theorem yearStart_succ (year : Int) : yearStart (year + 1) = yearStart year + yearLength year := by
  simp only [yearStart, yearLength, isLeap, decide_eq_true_eq, Bool.and_eq_true, Bool.or_eq_true]
  split <;> omega

/-- The mean length of a year is 146097 days in 400 years, and no year begins more than two days off
it. -/
theorem yearStart_mean (year : Int) :
    146097 * (year - 1) - 699 ≤ 400 * (yearStart year + 719162) ∧
      400 * (yearStart year + 719162) ≤ 146097 * (year - 1) + 396 := by
  rw [yearStart]
  omega

theorem yearStart_yearOf (day : Int) :
    yearStart (yearOf day) ≤ day ∧ day < yearStart (yearOf day + 1) := by
  obtain ⟨guess, hguess⟩ : ∃ guess, guess = (day + 719162) * 400 / 146097 + 1 := ⟨_, rfl⟩
  have hbefore : yearStart (guess - 1) ≤ day := by
    have := yearStart_mean (guess - 1)
    omega
  have hafter : day < yearStart (guess + 1 + 1) := by
    have := yearStart_mean (guess + 1 + 1)
    omega
  rw [yearOf, ← hguess]
  split
  · rw [Int.sub_add_cancel]
    exact ⟨hbefore, ‹_›⟩
  · split
    · exact ⟨‹_›, hafter⟩
    · omega

theorem yearStart_le {year' : Int} (h : year ≤ year') : yearStart year ≤ yearStart year' := by
  simp only [yearStart]
  omega

theorem supported_iff : supported year ↔ firstYear ≤ year ∧ year ≤ lastYear := by
  simp only [supported, Bool.and_eq_true, decide_eq_true_eq]

theorem supported_yearOf (hfirst : yearStart firstYear ≤ day)
    (hlast : day < yearStart (lastYear + 1)) : supported (yearOf day) := by
  obtain ⟨hstart, hnext⟩ := yearStart_yearOf day
  have hfirst' : firstYear ≤ yearOf day := Int.not_lt.mp fun h =>
    absurd (yearStart_le (Int.add_one_le_of_lt h)) (by omega)
  have hlast' : yearOf day ≤ lastYear := Int.not_lt.mp fun h =>
    absurd (yearStart_le (Int.add_one_le_of_lt h)) (by omega)
  exact supported_iff.mpr ⟨hfirst', hlast'⟩

/-! ## Months -/

theorem monthLengths_total (year : Int) :
    (monthLengths year).foldr (· + ·) 0 = yearLength year := by
  rw [monthLengths, yearLength]
  cases isLeap year <;> rfl

theorem monthLength_le (year : Int) (month : Nat) : monthLength year month ≤ 31 := by
  rw [monthLength]
  split
  · exact Nat.zero_le _
  · have hall : ∀ length ∈ monthLengths year, length ≤ 31 := by
      rw [monthLengths]
      cases isLeap year <;> decide
    rw [List.getD_eq_getElem?_getD]
    cases h : (monthLengths year)[month - 1]? with
    | none => exact Nat.zero_le _
    | some length => exact hall length (List.mem_of_getElem? h)

/-- A number of days within the lengths is that of some whole ones, and less than the next. -/
theorem splitMonths_spec (first : Nat) (h : days < lengths.foldr (· + ·) 0) : ∃ k d,
    splitMonths first days lengths = (first + k, d + 1) ∧ k < lengths.length ∧
      d < lengths.getD k 0 ∧ (lengths.take k).foldr (· + ·) 0 + d = days := by
  induction lengths generalizing first days with
  | nil => exact absurd h (Nat.not_lt_zero _)
  | cons length lengths ih =>
    rw [splitMonths]
    split
    case isTrue hfirst => exact ⟨0, days, rfl, Nat.succ_pos _, hfirst, Nat.zero_add _⟩
    case isFalse hlater =>
      rw [List.foldr_cons] at h
      obtain ⟨k, d, hsplit, hk, hd, htotal⟩ :=
        ih (first + 1) (Nat.sub_lt_left_of_lt_add (Nat.not_lt.mp hlater) h)
      refine ⟨k + 1, d, ?_, Nat.succ_lt_succ hk, hd, ?_⟩
      · rw [hsplit, Nat.add_assoc, Nat.add_comm 1]
      · rw [List.take_succ_cons, List.foldr_cons]
        omega

/-- What the civil date of a day says: the days of the year before the month, and those of the month
before the day. -/
theorem monthAndDay_spec (day : Int) : ∃ k d, month day = k + 1 ∧ dayOfMonth day = d + 1 ∧
    k < 12 ∧ d < monthLength (yearOf day) (k + 1) ∧
      yearStart (yearOf day) + daysBeforeMonth (yearOf day) (k + 1) + d = day := by
  obtain ⟨hstart, hnext⟩ := yearStart_yearOf day
  rw [yearStart_succ] at hnext
  have hordinal : (ordinal day - 1).toNat < (monthLengths (yearOf day)).foldr (· + ·) 0 := by
    rw [monthLengths_total, ordinal]
    omega
  obtain ⟨k, d, hsplit, hk, hd, htotal⟩ := splitMonths_spec 1 hordinal
  refine ⟨k, d, ?_, ?_, hk, by simpa [monthLength] using hd, ?_⟩
  · rw [month, monthAndDay, hsplit, Nat.add_comm]
  · rw [dayOfMonth, monthAndDay, hsplit]
  · rw [daysBeforeMonth, Nat.add_sub_cancel, Int.add_assoc, ← Int.natCast_add, htotal, ordinal]
    omega

theorem ofYearMonthDay?_day (h : supported (yearOf day)) :
    ofYearMonthDay? (yearOf day) (month day) (dayOfMonth day) = some day := by
  obtain ⟨k, d, hmonth, hday, -, hd, htotal⟩ := monthAndDay_spec day
  rw [hmonth, hday, ofYearMonthDay?, if_pos (by simp [h]; omega), Nat.add_sub_cancel, htotal]

theorem month_bounds (day : Int) : (1 ≤ month day ∧ month day ≤ 12) ∧
    1 ≤ dayOfMonth day ∧ dayOfMonth day ≤ 31 := by
  obtain ⟨k, d, hmonth, hday, hk, hd, -⟩ := monthAndDay_spec day
  have hlength := monthLength_le (yearOf day) (k + 1)
  omega

end Formulary.Civil

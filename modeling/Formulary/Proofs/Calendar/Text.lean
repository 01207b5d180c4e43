import Formulary.Proofs.Calendar.Civil
import Formulary.Proofs.Calendar.Scan
import Formulary.Value.Conversion

/-!
# Texts of dates

The text of a date gives seven fields, and these name the date to the second, for every supported
year.  So the text converts back to the date without its fraction of a second.  A leap second has
its own number at the end of a minute only; anywhere else it has that of the next second.

* `Instant.fields`, `Instant.read_text`: the fields that the text of a date gives.
* `Instant.dateTime_fields`: the date that they name.
* `Value.toDate_toText`: a date as text and back.
* `Value.toDate_toText_ne`: a leap second that comes back as the second after it.
-/

namespace Formulary

namespace Instant

open Calendar

/-! ## The parts of an instant -/

theorem supported_day (t : Instant) : Civil.supported (Civil.yearOf t.day) := by
  have hfirst := t.first_le
  have hend := t.lt_end
  rw [← firstSecond_eq] at hfirst
  rw [← endSecond_eq] at hend
  refine Civil.supported_yearOf ?_ ?_
  · rw [day]
    omega
  · rw [day]
    omega

theorem hour_lt (t : Instant) : t.hour < 24 := by
  rw [hour, secondOfDay]
  omega

theorem minute_lt (t : Instant) : t.minute < 60 := by
  rw [minute]
  omega

theorem second_le (t : Instant) : t.second ≤ 60 := by
  have hnanos := t.nanos_lt
  rw [second]
  omega

/-- The second 60 is a leap second after the last second of a minute. -/
theorem second_eq_iff (t : Instant) :
    t.second = 60 ↔ 1000000000 ≤ t.nanos ∧ t.seconds % 60 = 59 := by
  have hnanos := t.nanos_lt
  rw [second, secondOfDay]
  omega

/-! ## Reading the text -/

def fields (t : Instant) : Fields where
  year := some (Civil.yearOf t.day)
  month := some (Civil.month t.day)
  day := some (Civil.dayOfMonth t.day)
  halfDay := some (t.hour / 12)
  hourOfHalf := some (t.hour % 12)
  minute := some t.minute
  second := some t.second

theorem ofPattern_textPattern : Item.ofPattern textPattern.toList =
    [.number .year, Item.mark '-', .number .month, Item.mark '-', .number .day, .space,
      .number .hour, Item.mark ':', .number .minute, Item.mark ':', .number .second] := by
  decide

/-- The text of an instant is read field by field. -/
theorem read_text (t : Instant) : Fields.read textPattern t.text = .ok t.fields := by
  obtain ⟨⟨hmonth, hmonth'⟩, hday, hday'⟩ := Civil.month_bounds t.day
  obtain ⟨hfirst, hlast⟩ := Civil.supported_iff.mp t.supported_day
  have hhour := t.hour_lt
  have hminute := t.minute_lt
  have hsecond := t.second_le
  rw [Civil.firstYear] at hfirst
  rw [Civil.lastYear] at hlast
  have hsize : (Civil.yearOf t.day).natAbs ≤ Scan.largest := by
    rw [Scan.largest]
    omega
  have hrun : Fields.readPattern (Item.ofPattern textPattern.toList) {} t.text.toList =
      .ok (t.fields, []) := by
    rw [text, String.toList_ofList, ofPattern_textPattern, ← List.append_nil (padded 2 t.second)]
    simp only [List.append_assoc, List.cons_append]
    refine (Fields.readPattern_number (Scan.number_yearText _ hsize (by simp))
      (Fields.setNumber_year (by rfl) (by omega))).trans ?_
    rw [Fields.readPattern_mark]
    refine (Fields.readPattern_twoDigits rfl (by omega)
      (Fields.setNumber_month (by rfl) (by omega)) _ _).trans ?_
    rw [Fields.readPattern_mark]
    refine (Fields.readPattern_twoDigits rfl (by omega)
      (Fields.setNumber_day (by rfl) (by omega)) _ _).trans ?_
    rw [Fields.readPattern_space]
    refine (Fields.readPattern_twoDigits rfl (by omega)
      (Fields.setNumber_hour (by rfl) (by rfl) (by omega)) _ _).trans ?_
    rw [Fields.readPattern_mark]
    refine (Fields.readPattern_twoDigits rfl (by omega)
      (Fields.setNumber_minute (by rfl) (by omega)) _ _).trans ?_
    rw [Fields.readPattern_mark]
    refine (Fields.readPattern_twoDigits rfl (by omega)
      (Fields.setNumber_second (by rfl) (by omega)) _ _).trans ?_
    rfl
  rw [Fields.read, hrun]

/-! ## The date of the fields -/

/-- The instant that the text of an instant names: it has no fraction of a second, and is a leap
second only at the end of a minute. -/
def wholeSecond (t : Instant) : Instant where
  seconds := if t.second = 60 then t.seconds else t.seconds + (t.nanos / 1000000000 : Nat)
  nanos := if t.second = 60 then 1000000000 else 0
  first_le := by
    have hfirst := t.first_le
    split <;> omega
  lt_end := by
    have hend := t.lt_end
    have hnanos := t.nanos_lt
    have hsecond := t.second_eq_iff
    split <;> omega
  nanos_lt := by split <;> decide

theorem wholeSecond_of_eq {t : Instant} (h : t.second = 60) :
    t.wholeSecond.seconds = t.seconds ∧ t.wholeSecond.nanos = 1000000000 := ⟨if_pos h, if_pos h⟩

theorem wholeSecond_of_ne {t : Instant} (h : t.second ≠ 60) :
    t.wholeSecond.seconds = t.seconds + (t.nanos / 1000000000 : Nat) ∧ t.wholeSecond.nanos = 0 :=
  ⟨if_neg h, if_neg h⟩

theorem allows_fields (t : Instant) (d : Int) :
    (t.fields.allowsIsoWeek d && t.fields.allowsOrdinal d) = true := by
  have hyear : Fields.allowsYear none none none (Civil.isoYear d) = true := by
    simp [Fields.allowsYear, Fields.allows]
  have hweek : t.fields.allowsIsoWeek d =
      Fields.allowsYear none none none (Civil.isoYear d) := by
    simp [Fields.allowsIsoWeek, fields, Fields.allows]
  rw [hweek, hyear]
  rfl

theorem date_fields (t : Instant) : t.fields.date = .ok t.day := by
  have hdate : t.fields.dateOf (some (Civil.yearOf t.day)) none = .ok t.day := by
    calc t.fields.dateOf (some (Civil.yearOf t.day)) none
      _ = Fields.checked (Civil.ofYearMonthDay? (Civil.yearOf t.day) (Civil.month t.day)
            (Civil.dayOfMonth t.day)) fun d =>
              t.fields.allowsIsoWeek d && t.fields.allowsOrdinal d := rfl
      _ = .ok t.day := by
        rw [Civil.ofYearMonthDay?_day t.supported_day, Fields.checked,
          if_pos (t.allows_fields t.day)]
  calc t.fields.date
    _ = (do
      let d ← t.fields.dateOf (some (Civil.yearOf t.day)) none
      if Fields.allows none (Civil.quarter d) then return d else throw .impossible) := rfl
    _ = .ok t.day := by
      rw [hdate]
      rfl

theorem minuteStart_eq (t : Instant) :
    ((t.hour : Int) / 12 * 12 + (t.hour : Int) % 12) * 3600 + (t.minute : Int) * 60 =
      t.secondOfDay - (t.secondOfDay % 60 : Nat) := by
  rw [hour, minute]
  omega

theorem time_fields (t : Instant) : t.fields.time = .ok
    ⟨t.wholeSecond.seconds - t.day * 86400, (t.wholeSecond.nanos : Int)⟩ := by
  have htime : t.fields.time = if (t.second : Int) = 60
      then .ok ⟨t.secondOfDay - (t.secondOfDay % 60 : Nat) + 59, 1000000000⟩
      else .ok ⟨t.secondOfDay - (t.secondOfDay % 60 : Nat) + t.second, 0⟩ := by
    rw [← t.minuteStart_eq]
    rfl
  have hday : t.seconds - t.day * 86400 = t.secondOfDay := by
    rw [day, secondOfDay]
    omega
  rw [htime]
  by_cases hleap : t.second = 60
  · obtain ⟨hseconds, hnanos⟩ := wholeSecond_of_eq hleap
    have hlast : t.secondOfDay % 60 = 59 := by
      have hsecond := t.second_eq_iff.mp hleap
      rw [secondOfDay]
      omega
    rw [if_pos (by omega), hseconds, hnanos, hday, hlast]
    congr 2
    omega
  · obtain ⟨hseconds, hnanos⟩ := wholeSecond_of_ne hleap
    have hsecond : t.second = t.secondOfDay % 60 + t.nanos / 1000000000 := rfl
    rw [if_neg (by omega), hseconds, hnanos, hsecond]
    congr 2
    omega

/-- The fields that the text gives name the instant to the second. -/
theorem dateTime_fields (t : Instant) : t.fields.dateTime = .ok t.wholeSecond := by
  have hleap : 1000000000 ≤ t.wholeSecond.nanos → t.wholeSecond.seconds % 60 = 59 := by
    by_cases h : t.second = 60
    · rw [(wholeSecond_of_eq h).1]
      exact fun _ => (t.second_eq_iff.mp h).2
    · rw [(wholeSecond_of_ne h).2]
      exact fun h => absurd h (by decide)
  have hat : Fields.at? t.day ⟨t.wholeSecond.seconds - t.day * 86400,
      (t.wholeSecond.nanos : Int)⟩ = .ok t.wholeSecond := by
    have hof : of? t.wholeSecond.seconds t.wholeSecond.nanos = some t.wholeSecond :=
      dif_pos ⟨⟨t.wholeSecond.first_le, t.wholeSecond.lt_end⟩, t.wholeSecond.nanos_lt, hleap⟩
    have hseconds : t.day * 86400 + (t.wholeSecond.seconds - t.day * 86400) =
        t.wholeSecond.seconds := by omega
    simp only [Fields.at?, hseconds, Int.toNat_natCast, hof]
  rw [Fields.dateTime, t.date_fields, t.time_fields]
  simp only [bind, Except.bind, hat]
  rfl

theorem ofText?_text (t : Instant) : ofText? t.text = some t.wholeSecond := by
  rw [ofText?, readDateTime, t.read_text]
  simp only [bind, Except.bind, t.dateTime_fields]
  rfl

end Instant

namespace Value

/-- The text of a date converts back to the date, without its fraction of a second and whatever the
present instant is.  A leap second stays one after the last second of a minute; after any other one
it becomes the next second. -/
theorem toDate_toText (t now : Instant) :
    ((string (date t).toText).toDate now).seconds =
        (if 1000000000 ≤ t.nanos ∧ t.seconds % 60 ≠ 59 then t.seconds + 1 else t.seconds) ∧
      ((string (date t).toText).toDate now).nanos =
        if 1000000000 ≤ t.nanos ∧ t.seconds % 60 = 59 then 1000000000 else 0 := by
  have hdate : (string (date t).toText).toDate now = t.wholeSecond := by
    calc (string (date t).toText).toDate now
      _ = (Instant.ofText? t.text).getD now := rfl
      _ = t.wholeSecond := by rw [t.ofText?_text, Option.getD_some]
  have hnanos := t.nanos_lt
  have hsecond := t.second_eq_iff
  rw [hdate]
  by_cases h : t.second = 60
  · obtain ⟨hseconds, hwhole⟩ := Instant.wholeSecond_of_eq h
    have hleap := hsecond.mp h
    rw [hseconds, hwhole, if_neg (by omega), if_pos hleap]
    exact ⟨rfl, rfl⟩
  · obtain ⟨hseconds, hwhole⟩ := Instant.wholeSecond_of_ne h
    rw [hseconds, hwhole, if_neg fun hleap => h (hsecond.mpr hleap)]
    refine ⟨?_, rfl⟩
    split <;> omega

/-- A leap second in the middle of a minute. -/
def strayLeap : Instant where
  seconds := 30
  nanos := 1250000000
  first_le := by decide
  lt_end := by decide
  nanos_lt := by decide

/-- Its text is that of the second after it. -/
theorem toDate_toText_ne : (date strayLeap).toText = "1970-01-01 00:00:31" ∧
    ((string (date strayLeap).toText).toDate .epoch).seconds ≠ strayLeap.seconds ∧
    ((string (date strayLeap).toText).toDate .epoch).nanos ≠ 1000000000 := by
  decide +kernel

end Value

end Formulary

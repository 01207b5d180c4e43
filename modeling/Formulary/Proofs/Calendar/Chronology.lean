import Formulary.Library.Base
import Formulary.Proofs.Value.Order

/-!
# The order of dates

Dates are compared by their whole milliseconds since the epoch.  These follow the order in time,
except that a leap second counts on into the next second, where it meets and overtakes instants that
come after it.

* `Instant.Earlier`: the order in time.
* `Instant.Meets`, `Instant.Overtakes`: how an instant comes to have the milliseconds of a later
  one, or more; `Instant.Earlier.compare_toMillis`: there is no other way.
* `Value.compare_dates`: how two dates compare.
* `Value.not_chronological`: a date that compares greater than one after it.
-/

namespace Formulary

namespace Instant

variable {a b : Instant}

/-- The whole milliseconds of an instant on top of its seconds; a leap second has 1000 or more. -/
def millisecond (t : Instant) : Nat := t.nanos / 1000000

/-- The order in time: by seconds since the epoch, then by nanoseconds. -/
def Earlier (a b : Instant) : Prop :=
  a.seconds < b.seconds ∨ a.seconds = b.seconds ∧ a.nanos < b.nanos

/-- Two instants of the same millisecond, or a leap second that has counted on to a millisecond of
the next second. -/
def Meets (a b : Instant) : Prop :=
  a.seconds = b.seconds ∧ a.millisecond = b.millisecond ∨
    b.seconds = a.seconds + 1 ∧ a.millisecond = 1000 + b.millisecond

/-- A leap second that has counted on past a millisecond of the next second. -/
def Overtakes (a b : Instant) : Prop :=
  b.seconds = a.seconds + 1 ∧ 1000 + b.millisecond < a.millisecond

instance : Decidable (a.Earlier b) := inferInstanceAs (Decidable (_ ∨ _))

instance : Decidable (a.Meets b) := inferInstanceAs (Decidable (_ ∨ _))

instance : Decidable (a.Overtakes b) := inferInstanceAs (Decidable (_ ∧ _))

theorem toMillis_eq (t : Instant) : t.toMillis = t.seconds * 1000 + t.millisecond := rfl

theorem millisecond_lt (t : Instant) : t.millisecond < 2000 := by
  have := t.nanos_lt
  rw [millisecond]
  omega

theorem leap_of_millisecond (h : 1000 ≤ a.millisecond) : 1000000000 ≤ a.nanos := by
  rw [millisecond] at h
  omega

theorem Overtakes.leap (h : a.Overtakes b) : 1000000000 ≤ a.nanos :=
  leap_of_millisecond (by have := h.2; omega)

theorem Meets.leap (h : a.Meets b) (hseconds : a.seconds ≠ b.seconds) : 1000000000 ≤ a.nanos := by
  obtain ⟨heq, -⟩ | ⟨-, hmillis⟩ := h
  · exact absurd heq hseconds
  · exact leap_of_millisecond (by omega)

/-- The milliseconds of supported instants are far from the bounds of 64 bits. -/
theorem toInt_toMillis (t : Instant) : (Int64.ofInt t.toMillis).toInt = t.toMillis := by
  have hfirst := t.first_le
  have hend := t.lt_end
  have hmillis := t.millisecond_lt
  rw [toMillis_eq]
  exact Int64.toInt_ofInt_of_le (by omega) (by omega)

/-- Milliseconds do not decrease in time, but for a leap second that overtakes the next one. -/
theorem Earlier.compare_toMillis (h : a.Earlier b) :
    (compare a.toMillis b.toMillis = .gt ↔ a.Overtakes b) ∧
      (compare a.toMillis b.toMillis = .eq ↔ a.Meets b) := by
  have ha := a.millisecond_lt
  have hb := b.millisecond_lt
  -- within one second the nanoseconds decide, and milliseconds are a coarser measure of them
  have hsame : a.seconds = b.seconds → a.millisecond ≤ b.millisecond := fun heq => by
    have hnanos : a.nanos ≤ b.nanos := by
      rw [Earlier] at h
      omega
    exact Nat.div_le_div_right hnanos
  have hle : a.seconds ≤ b.seconds := by
    rw [Earlier] at h
    omega
  rw [Int.compare_eq_gt, Int.compare_eq_eq, toMillis_eq, toMillis_eq, Overtakes, Meets]
  omega

/-! ## Instants around the epoch and a leap second -/

def beforeEpoch : Instant where
  seconds := -1
  nanos := 999999999
  first_le := by decide
  lt_end := by decide
  nanos_lt := by decide

/-- Half a second into the leap second at the end of June 2015. -/
def leapInstant : Instant where
  seconds := 1435708799
  nanos := 1500000000
  first_le := by decide
  lt_end := by decide
  nanos_lt := by decide

/-- The midnight after it. -/
def midnight : Instant where
  seconds := 1435708800
  nanos := 0
  first_le := by decide
  lt_end := by decide
  nanos_lt := epoch.nanos_lt

end Instant

namespace Value

open Instant (beforeEpoch leapInstant midnight)

variable {v w : Value} {a b : Instant}

theorem compare_of_dates (hv : v.payload = .date a) (hw : w.payload = .date b) :
    v.compare w = some (Ord.compare a.toMillis b.toMillis) := by
  have hwholes : AsWholes v w := by
    rw [AsWholes, kind, kind, hv, hw]
    exact ⟨rfl, rfl⟩
  rw [compare_of_asWholes hwholes]
  simp only [toLong, hv, hw, Instant.toInt_toMillis]

/-- A date is less than a later one, unless both fall into the same millisecond, or the first is a
leap second and has counted on to the second one, which it then equals, or past it, and then it is
greater.  So any other date is never greater than a later one, and less than one of a later
second. -/
theorem compare_dates (hv : v.payload = .date a) (hw : w.payload = .date b) (h : a.Earlier b) :
    (v.compare w = some .gt ↔ a.Overtakes b) ∧
      (v.compare w = some .eq ↔ a.Meets b) ∧
      (v.compare w = some .lt ↔ ¬a.Overtakes b ∧ ¬a.Meets b) ∧
      (a.nanos < 1000000000 → v.compare w ≠ some .gt ∧
        (a.seconds ≠ b.seconds → v.compare w = some .lt)) := by
  obtain ⟨hgt, heq⟩ := h.compare_toMillis
  have hlt : Ord.compare a.toMillis b.toMillis = .lt ↔ ¬a.Overtakes b ∧ ¬a.Meets b := by
    rw [← hgt, ← heq]
    cases Ord.compare a.toMillis b.toMillis <;> simp
  simp only [compare_of_dates hv hw, Option.some.injEq, ne_eq]
  refine ⟨hgt, heq, hlt, ?_⟩
  intro hnanos
  have hovertakes : ¬a.Overtakes b := fun hover => absurd hover.leap (Nat.not_le.mpr hnanos)
  refine ⟨hovertakes ∘ hgt.mp, ?_⟩
  intro hseconds
  have hmeets : ¬a.Meets b := fun hmeet =>
    absurd (hmeet.leap hseconds) (Nat.not_le.mpr hnanos)
  exact hlt.mpr ⟨hovertakes, hmeets⟩

theorem compare_dates_epoch : beforeEpoch.Earlier .epoch ∧
    (date beforeEpoch).compare (date .epoch) = some .lt := by
  have hearlier : beforeEpoch.Earlier .epoch := by decide
  exact ⟨hearlier, ((compare_dates rfl rfl hearlier).2.2.2 (by decide)).2 (by decide)⟩

/-- Within a leap second the milliseconds count on to 60500, and the midnight after it has 60000. -/
theorem not_chronological :
    BaseLibrary.toDate (string "2015-06-30 23:59:60.5") (string "%Y-%m-%d %H:%M:%S%.f") =
      .ok (date leapInstant) ∧
    BaseLibrary.toDate (string "2015-07-01") (string "%Y-%m-%d") = .ok (date midnight) ∧
    leapInstant.Earlier midnight ∧ leapInstant.seconds ≠ midnight.seconds ∧
    (date leapInstant).compare (date midnight) = some .gt :=
  ⟨rfl, rfl, by decide, by decide, rfl⟩

end Value

end Formulary

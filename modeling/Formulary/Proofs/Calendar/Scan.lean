import Formulary.Calendar.Scan
import Formulary.Proofs.Number.Numeral
import Formulary.Proofs.Text.Basic

/-!
# Reading what has been written of a date

Numbers are written with zeros in front up to a width.  A number of that width is read back whatever
follows it, and a year with a sign if no digit follows.

* `Instant.padded`: its digits, their value and their number.
* `Calendar.Scan.digits_append`: digits are read up to the end of the window or of the digits.
* `Calendar.Scan.number_padded`, `Calendar.Scan.number_yearText`: numbers and years.
* `Calendar.Fields.readPattern_number`, …: a pattern is read item by item.
-/

namespace Formulary

variable {w n : Nat} {c : Char} {ds rest : List Char}

/-! ## Digits with zeros in front -/

namespace Instant

theorem isDigit_padded (w n : Nat) : ∀ c ∈ padded w n, c.isDigit := by
  intro c hc
  rw [padded, List.mem_append] at hc
  rcases hc with hc | hc
  · rw [List.eq_of_mem_replicate hc]
    rfl
  · exact Nat.isDigit_of_mem_toDigits (by decide) (by decide) hc

theorem padded_ne_nil (w n : Nat) : padded w n ≠ [] := by
  simp [padded, Nat.toDigits_ne_nil]

theorem ofDigitChars_padded (w n : Nat) : Nat.ofDigitChars 10 (padded w n) 0 = n := by
  rw [padded, Nat.ofDigitChars_append, Nat.ofDigitChars_replicate_zero, Nat.mul_zero,
    Nat.ofDigitChars_ten_toDigits]

theorem length_padded (hw : 0 < w) (hn : n < Nat.pow 10 w) : (padded w n).length = w := by
  have hlength : (Nat.toDigits 10 n).length ≤ w :=
    (Nat.length_toDigits_le_iff (by decide) hw).mpr hn
  rw [padded, List.length_append, List.length_replicate]
  omega

end Instant

/-! ## Numbers -/

namespace Calendar

open Instant (padded yearText)

namespace Scan

theorem not_shorterThan (c : Char) (cs : List Char) : shorterThan 1 (c :: cs) = false := by
  have := c.utf8Size_pos
  simp [shorterThan, utf8Length]
  omega

theorem trim_cons (hc : isSpace c = false) (cs : List Char) : trim (c :: cs) = c :: cs := by
  rw [trim, List.dropWhile_cons_of_neg (by simp [hc])]

theorem takeWhile_isDigit (hdigits : ∀ c ∈ ds, c.isDigit) (rest : List Char)
    (hrest : ∀ c ∈ rest.head?, c.isDigit = false) :
    (ds ++ rest).takeWhile Char.isDigit = ds := by
  rw [List.takeWhile_append_of_pos hdigits]
  cases rest with
  | nil => exact List.append_nil ds
  | cons c rest => simp [hrest c rfl]

/-- Digits are read up to the end of the window, or up to a character that is no digit. -/
theorem digits_append {most : Option Nat} (rest : List Char) (hne : ds ≠ [])
    (hdigits : ∀ c ∈ ds, c.isDigit)
    (hend : most = some ds.length ∨ most = none ∧ ∀ c ∈ rest.head?, c.isDigit = false)
    (hsize : Nat.ofDigitChars 10 ds 0 ≤ largest) :
    digits 1 most (ds ++ rest) = .ok (↑(Nat.ofDigitChars 10 ds 0), rest) := by
  have hshort : shorterThan 1 (ds ++ rest) = false := by
    obtain ⟨c, cs, rfl⟩ := List.exists_cons_of_ne_nil hne
    exact not_shorterThan c _
  have hlength : 1 ≤ ds.length := List.length_pos_iff.mpr hne
  rcases hend with rfl | ⟨rfl, hrest⟩
  · have hself := takeWhile_isDigit hdigits [] (by simp)
    rw [List.append_nil] at hself
    simp only [digits, hshort, List.take_left, hself, List.drop_left]
    rw [if_neg (by decide), if_neg (Nat.not_lt.mpr hsize), if_neg (Nat.not_lt.mpr hlength)]
  · simp only [digits, hshort, takeWhile_isDigit hdigits rest hrest, List.drop_left]
    rw [if_neg (by decide), if_neg (Nat.not_lt.mpr hsize), if_neg (Nat.not_lt.mpr hlength)]

/-- A number that is written with all the digits of its field is read back, whatever follows it. -/
theorem digits_padded (hw : 0 < w) (hn : n < Nat.pow 10 w) (hsize : n ≤ largest)
    (rest : List Char) : digits 1 (some w) (padded w n ++ rest) = .ok (↑n, rest) := by
  have hread := digits_append rest (Instant.padded_ne_nil w n) (Instant.isDigit_padded w n)
    (.inl (congrArg some (Instant.length_padded hw hn).symm))
    (by rwa [Instant.ofDigitChars_padded])
  rwa [Instant.ofDigitChars_padded] at hread

/-- A number in front of a character that is no digit is read back where any number of digits may
stand. -/
theorem digits_padded_none (hsize : n ≤ largest) (hrest : ∀ c ∈ rest.head?, c.isDigit = false) :
    digits 1 none (padded w n ++ rest) = .ok (↑n, rest) := by
  have hread := digits_append rest (Instant.padded_ne_nil w n) (Instant.isDigit_padded w n)
    (.inr ⟨rfl, hrest⟩) (by rwa [Instant.ofDigitChars_padded])
  rwa [Instant.ofDigitChars_padded] at hread

theorem number_of_isDigit (field : Field) (hc : c.isDigit) (cs : List Char) :
    number field (c :: cs) = digits 1 (width field) (c :: cs) := by
  unfold number
  rw [trim_cons (isSpace_of_isDigit hc)]
  split
  case h_1 heq =>
    cases heq
    exact absurd hc (by decide)
  case h_2 heq =>
    cases heq
    exact absurd hc (by decide)
  case h_3 => rfl

theorem exists_padded (w n : Nat) : ∃ c cs, padded w n = c :: cs ∧ c.isDigit := by
  obtain ⟨c, cs, hcs⟩ := List.exists_cons_of_ne_nil (Instant.padded_ne_nil w n)
  exact ⟨c, cs, hcs, Instant.isDigit_padded w n c (hcs ▸ List.mem_cons_self)⟩

theorem number_padded {field : Field} (hwidth : width field = some w) (hw : 0 < w)
    (hn : n < Nat.pow 10 w) (hsize : n ≤ largest) (rest : List Char) :
    number field (padded w n ++ rest) = .ok (↑n, rest) := by
  have hread := digits_padded hw hn hsize rest
  obtain ⟨c, cs, hcs, hc⟩ := exists_padded w n
  rw [hcs, List.cons_append] at hread ⊢
  rw [number_of_isDigit field hc, hwidth, hread]

theorem number_yearText (year : Int) (hsize : year.natAbs ≤ largest)
    (hrest : ∀ c ∈ rest.head?, c.isDigit = false) :
    number .year (yearText year ++ rest) = .ok (year, rest) := by
  rw [yearText]
  split
  case isTrue hfour =>
    have hwidth : width .year = some 4 := rfl
    have hread := number_padded (n := year.natAbs) hwidth (by decide)
      (Nat.lt_of_le_of_lt (by omega) (by decide : 9999 < Nat.pow 10 4)) hsize rest
    rwa [Int.natAbs_of_nonneg hfour.1] at hread
  case isFalse hfour =>
    have hread := digits_padded_none (w := 4) hsize hrest
    split
    case isTrue hneg =>
      have hyear : -(year.natAbs : Int) = year := by omega
      rw [List.cons_append, number, trim_cons (by decide)]
      simp only [isSigned, hread, Except.map, hyear]
    case isFalse hpos =>
      have hyear : (year.natAbs : Int) = year := by omega
      rw [List.cons_append, number, trim_cons (by decide)]
      simp only [isSigned, hread, hyear]

example : yearText (-44) = ['-', '0', '0', '4', '4'] := by decide

end Scan

/-! ## Items -/

namespace Fields

variable {f g : Fields} {field : Field} {items : List Item} {cs : List Char}

theorem readPattern_cons {item : Item} (hsimple : item ≠ .dateTimeOffset)
    (h : f.readItem item cs = .ok (g, rest)) :
    readPattern (item :: items) f cs = readPattern items g rest := by
  rw [readPattern, if_neg hsimple, h]

theorem readPattern_number {v : Int} (hscan : Scan.number field cs = .ok (v, rest))
    (hset : f.setNumber field v = .ok g) :
    readPattern (.number field :: items) f cs = readPattern items g rest := by
  refine readPattern_cons (by simp) ?_
  rw [readItem, hscan, fill]
  simp only [bind, Except.bind, hset]
  rfl

theorem readPattern_twoDigits (hwidth : Scan.width field = some 2) (hn : n < 100)
    (hset : f.setNumber field n = .ok g) (items : List Item) (rest : List Char) :
    readPattern (.number field :: items) f (padded 2 n ++ rest) = readPattern items g rest := by
  have hsize : n ≤ Scan.largest := Nat.le_trans (Nat.le_of_lt hn) (by decide)
  exact readPattern_number (Scan.number_padded hwidth (by decide) hn hsize rest) hset

theorem readPattern_mark (c : Char) (items : List Item) (f : Fields) (rest : List Char) :
    readPattern (Item.mark c :: items) f (c :: rest) = readPattern items f rest := by
  refine readPattern_cons (by simp [Item.mark]) ?_
  have hlength : ¬utf8Length (c :: rest) < utf8Length [c] := by simp [utf8Length]
  rw [Item.mark, readItem, readLiteral, if_neg hlength, if_pos (by simp)]
  rfl

theorem readPattern_space (w n : Nat) (items : List Item) (f : Fields) (rest : List Char) :
    readPattern (.space :: items) f (' ' :: (padded w n ++ rest)) =
      readPattern items f (padded w n ++ rest) := by
  refine readPattern_cons (by simp) ?_
  obtain ⟨c, cs, hcs, hc⟩ := Scan.exists_padded w n
  rw [readItem, Scan.trim, List.dropWhile_cons_of_pos (by decide), hcs, List.cons_append,
    ← Scan.trim, Scan.trim_cons (isSpace_of_isDigit hc)]

/-! ## Filling fields -/

variable {v : Int}

theorem agreeWithin_none {lowest highest : Int} (h : lowest ≤ v ∧ v ≤ highest) :
    agreeWithin lowest highest none v = .ok (some v) := by
  rw [agreeWithin, if_pos h]
  rfl

theorem setNumber_year (hf : f.year = none) (hv : -2147483648 ≤ v ∧ v ≤ 2147483647) :
    f.setNumber .year v = .ok { f with year := some v } := by
  rw [setNumber, setYear, hf, agreeWithin_none hv]
  rfl

theorem setNumber_month (hf : f.month = none) (hv : 1 ≤ v ∧ v ≤ 12) :
    f.setNumber .month v = .ok { f with month := some v } := by
  rw [setNumber, setMonth, hf, agreeWithin_none hv]
  rfl

theorem setNumber_day (hf : f.day = none) (hv : 1 ≤ v ∧ v ≤ 31) :
    f.setNumber .day v = .ok { f with day := some v } := by
  simp only [setNumber, hf, agreeWithin_none hv]
  rfl

theorem setNumber_hour (hhalf : f.halfDay = none) (hhour : f.hourOfHalf = none)
    (hv : 0 ≤ v ∧ v ≤ 23) : f.setNumber .hour v =
      .ok { f with halfDay := some (v / 12), hourOfHalf := some (v % 12) } := by
  have hbounds : ¬(v < 0 ∨ 23 < v) := by omega
  simp only [setNumber, setHour, setHalfDay, if_neg hbounds, hhalf, hhour]
  rfl

theorem setNumber_minute (hf : f.minute = none) (hv : 0 ≤ v ∧ v ≤ 59) :
    f.setNumber .minute v = .ok { f with minute := some v } := by
  rw [setNumber, setMinute, hf, agreeWithin_none hv]
  rfl

theorem setNumber_second (hf : f.second = none) (hv : 0 ≤ v ∧ v ≤ 60) :
    f.setNumber .second v = .ok { f with second := some v } := by
  rw [setNumber, setSecond, hf, agreeWithin_none hv]
  rfl

end Fields

end Calendar

end Formulary

import Formulary.Number.Decimal

/-!
# What numerals denote

A row of digits denotes the sum of its digits, each times the power of ten of its place.  Reading
gives exactly what a text denotes, and what is written for a number denotes that number.

* `Numeral.Digits`, `Numeral.Denotes`: what a row of digits and a numeral with a sign denote.
* `Numeral.integer?_eq_some_iff`, `Numeral.integerIn?_eq_some_iff`: reading, without and with
  bounds.
* `Numeral.denotes_toString`: writing.
-/

namespace Formulary.Numeral

variable {c : Char} {cs : List Char} {s : String} {i lowest highest : Int} {n : Nat}

/-! ## Rows of digits -/

/-- The number that a row of one or more digits denotes. -/
inductive Digits : List Char → Nat → Prop
  | last {c : Char} : c.isDigit → Digits [c] (c.toNat - '0'.toNat)
  | cons {c : Char} {cs : List Char} {n : Nat} : c.isDigit → Digits cs n →
      Digits (c :: cs) ((c.toNat - '0'.toNat) * Nat.pow 10 cs.length + n)

theorem Digits.ne_nil (h : Digits cs n) : cs ≠ [] := by
  cases h <;> exact List.cons_ne_nil _ _

theorem Digits.isDigit (h : Digits cs n) : ∀ c ∈ cs, c.isDigit := by
  induction h with
  | last hc => simpa using hc
  | cons hc _ ih => exact List.forall_mem_cons.mpr ⟨hc, ih⟩

/-- The first digit of a row counts by the number of those after it. -/
theorem ofDigitChars_cons (c : Char) (cs : List Char) : Nat.ofDigitChars 10 (c :: cs) 0 =
    (c.toNat - '0'.toNat) * Nat.pow 10 cs.length + Nat.ofDigitChars 10 cs 0 := by
  rw [Nat.ofDigitChars_cons, Nat.ofDigitChars_eq_ofDigitChars_zero, Nat.mul_zero, Nat.zero_add,
    Nat.mul_comm, Nat.pow_eq]

theorem Digits.eq (h : Digits cs n) : n = Nat.ofDigitChars 10 cs 0 := by
  induction h with
  | @last c _ =>
    rw [ofDigitChars_cons]
    simp
  | @cons c cs n _ _ ih => rw [ofDigitChars_cons, ih]

theorem digits_of_isDigit (hne : cs ≠ []) (h : ∀ c ∈ cs, c.isDigit) :
    Digits cs (Nat.ofDigitChars 10 cs 0) := by
  induction cs with
  | nil => exact absurd rfl hne
  | cons c cs ih =>
    obtain ⟨hc, hcs⟩ := List.forall_mem_cons.mp h
    by_cases hempty : cs = []
    · subst hempty
      rw [ofDigitChars_cons]
      simpa using Digits.last hc
    · rw [ofDigitChars_cons]
      exact .cons hc (ih hempty hcs)

theorem value?_eq_some_iff : value? cs = some n ↔ Digits cs n := by
  rw [value?, Option.ite_none_right_eq_some, List.all_eq_true, Option.some.injEq]
  constructor
  · rintro ⟨⟨hne, hdigits⟩, rfl⟩
    exact digits_of_isDigit hne hdigits
  · exact fun h => ⟨⟨h.ne_nil, h.isDigit⟩, h.eq.symm⟩

/-! ## Signs -/

/-- The number that a row of digits denotes with an optional single sign in front. -/
inductive Denotes : List Char → Int → Prop
  | unsigned {cs : List Char} {n : Nat} : Digits cs n → Denotes cs n
  | plus {cs : List Char} {n : Nat} : Digits cs n → Denotes ('+' :: cs) n
  | minus {cs : List Char} {n : Nat} : Digits cs n → Denotes ('-' :: cs) (-n)

theorem not_digits_cons (hc : c.isDigit = false) : ¬Digits (c :: cs) n := fun h => by
  have := h.isDigit c List.mem_cons_self
  simp [hc] at this

theorem integer?_of_digits (h : Digits cs n) : integer? cs = some ↑n := by
  unfold integer?
  split
  · exact absurd h (not_digits_cons rfl)
  · exact absurd h (not_digits_cons rfl)
  · rw [value?_eq_some_iff.mpr h]
    rfl

theorem integer?_eq_some_iff : integer? cs = some i ↔ Denotes cs i := by
  constructor
  · intro h
    unfold integer? at h
    split at h
    · obtain ⟨n, hn, rfl⟩ := Option.map_eq_some_iff.mp h
      exact .plus (value?_eq_some_iff.mp hn)
    · obtain ⟨_, hvalue, rfl⟩ := Option.map_eq_some_iff.mp h
      obtain ⟨n, hn, hsome⟩ := Option.bind_eq_some_iff.mp hvalue
      obtain rfl := Option.some.inj hsome
      exact .minus (value?_eq_some_iff.mp hn)
    · obtain ⟨n, hn, rfl⟩ := Option.map_eq_some_iff.mp h
      exact .unsigned (value?_eq_some_iff.mp hn)
  · rintro (h | h | h)
    · exact integer?_of_digits h
    · rw [integer?, value?_eq_some_iff.mpr h]
      rfl
    · rw [integer?, value?_eq_some_iff.mpr h]
      rfl

theorem integerIn?_eq_some_iff : integerIn? lowest highest s = some i ↔
    Denotes s.toList i ∧ lowest ≤ i ∧ i ≤ highest := by
  simp [integerIn?, Option.filter_eq_some_iff, integer?_eq_some_iff]

theorem integerIn?_filter {lowest' highest' : Int} (hlowest : lowest ≤ lowest')
    (hhighest : highest' ≤ highest) (s : String) : integerIn? lowest' highest' s =
      (integerIn? lowest highest s).filter fun i => lowest' ≤ i && i ≤ highest' := by
  rw [integerIn?, integerIn?, Option.filter_filter]
  congr 1
  funext i
  grind

/-! ## A default -/

/-- A number that a text is converted to: what the text denotes, if that lies within the bounds, or
else zero. -/
structure Converted (lowest highest : Int) (s : String) (i : Int) : Prop where
  exact : ∀ n, Denotes s.toList n → lowest ≤ n → n ≤ highest → i = n
  zero : (∀ n, Denotes s.toList n → ¬(lowest ≤ n ∧ n ≤ highest)) → i = 0

theorem converted_getD (lowest highest : Int) (s : String) :
    Converted lowest highest s ((integerIn? lowest highest s).getD 0) where
  exact n hn hlowest hhighest := by
    rw [integerIn?_eq_some_iff.mpr ⟨hn, hlowest, hhighest⟩]
    rfl
  zero h := by
    have hnone : integerIn? lowest highest s = none := by
      refine Option.eq_none_iff_forall_ne_some.mpr fun n hn => ?_
      obtain ⟨hdenotes, hbounds⟩ := integerIn?_eq_some_iff.mp hn
      exact h n hdenotes hbounds
    rw [hnone]
    rfl

theorem getD_integerIn?_le (hlowest : lowest ≤ 0) (hhighest : 0 ≤ highest) (s : String) :
    lowest ≤ (integerIn? lowest highest s).getD 0 ∧
      (integerIn? lowest highest s).getD 0 ≤ highest := by
  cases h : integerIn? lowest highest s with
  | none => exact ⟨hlowest, hhighest⟩
  | some n => exact (integerIn?_eq_some_iff.mp h).2

/-! ## Writing -/

theorem digits_toDigits (n : Nat) : Digits (Nat.toDigits 10 n) n := by
  have h := digits_of_isDigit Nat.toDigits_ne_nil fun c hc =>
    Nat.isDigit_of_mem_toDigits (b := 10) (n := n) (by decide) (by decide) hc
  rwa [Nat.ofDigitChars_ten_toDigits] at h

theorem denotes_toString (i : Int) : Denotes (toString i).toList i := by
  rw [Int.toString_eq_repr, Int.repr_eq_if]
  split
  · have h := Denotes.unsigned (digits_toDigits i.toNat)
    rwa [Int.toNat_of_nonneg ‹_›, ← Nat.toList_repr] at h
  · have h := Denotes.minus (digits_toDigits (-i).toNat)
    rw [Int.toNat_of_nonneg (by omega), Int.neg_neg] at h
    simpa using h

end Formulary.Numeral

import Formulary.Library.Table
import Formulary.Proofs.Number.Numeral

/-!
# Values as whole numbers

A value converts to a whole number of 32 bits and to one of 64.  The two agree wherever the latter
has room in 32 bits.  Where it has not, a long keeps its low bits, a double stops at the bound that
it is beyond, and a text counts for nothing, as it does for 64 bits where it denotes a larger
number.

* `Binary64.Parts.toIntWithin_within`: the bounds of a double, one pair within the other.
* `Value.Narrow`, `Value.Wide`: room in 32 bits and in 64.
* `Value.texts_convert`: the whole number of a text, and back.
* `Value.Narrowed`: what comes of a value that has no room.
* `Value.toInteger_toLong`: the two whole numbers of a value.
-/

namespace Formulary

/-! ## Doubles -/

namespace Binary64

variable {lowest highest lowest' highest' : Int}

/-- The result lies within the bounds. -/
theorem Parts.toIntWithin_le (hlowest : lowest ≤ 0) (hhighest : 0 ≤ highest) (p : Parts) :
    lowest ≤ p.toIntWithin lowest highest ∧ p.toIntWithin lowest highest ≤ highest := by
  cases p with
  | nan => exact ⟨hlowest, hhighest⟩
  | infinite negative => cases negative <;> simp [toIntWithin] <;> omega
  | finite negative significand exponent =>
    simp only [toIntWithin]
    omega

/-- Narrower bounds may be applied after wider ones. -/
theorem Parts.toIntWithin_within (hlowest : lowest ≤ lowest') (hlowest' : lowest' ≤ 0)
    (hhighest' : 0 ≤ highest') (hhighest : highest' ≤ highest) (p : Parts) :
    p.toIntWithin lowest' highest' = max lowest' (min highest' (p.toIntWithin lowest highest)) := by
  cases p with
  | nan =>
    simp only [toIntWithin]
    omega
  | infinite negative => cases negative <;> simp [toIntWithin] <;> omega
  | finite negative significand exponent =>
    simp only [toIntWithin]
    omega

end Binary64

namespace Value

variable {v : Value}

/-! ## Room in 32 and in 64 bits -/

def Narrow (i : Int) : Prop := -2147483648 ≤ i ∧ i ≤ 2147483647

instance (i : Int) : Decidable (Narrow i) := inferInstanceAs (Decidable (_ ∧ _))

def Wide (i : Int) : Prop := -9223372036854775808 ≤ i ∧ i ≤ 9223372036854775807

theorem toInt_ofInt_narrow {i : Int} (h : Narrow i) : (Int32.ofInt i).toInt = i :=
  Int32.toInt_ofInt_of_le h.1 (Int.lt_of_le_of_lt h.2 (by decide))

theorem toInt_ofInt_wide {i : Int} (h : Wide i) : (Int64.ofInt i).toInt = i :=
  Int64.toInt_ofInt_of_le h.1 (Int.lt_of_le_of_lt h.2 (by decide))

theorem toInt_toLong_string (s : String) : (string s).toLong.toInt =
    (Numeral.integerIn? (-9223372036854775808) 9223372036854775807 s).getD 0 :=
  toInt_ofInt_wide (Numeral.getD_integerIn?_le (by decide) (by decide) s)

theorem toInt_toInteger_string (s : String) : (string s).toInteger.toInt =
    (Numeral.integerIn? (-2147483648) 2147483647 s).getD 0 :=
  toInt_ofInt_narrow (Numeral.getD_integerIn?_le (by decide) (by decide) s)

theorem toInt_toLong_double (x : Float) : (double x).toLong.toInt =
    Binary64.toIntWithin (-9223372036854775808) 9223372036854775807 x :=
  toInt_ofInt_wide ((Binary64.parts x).toIntWithin_le (by decide) (by decide))

theorem toInt_toInteger_double (x : Float) : (double x).toInteger.toInt =
    Binary64.toIntWithin (-2147483648) 2147483647 x :=
  toInt_ofInt_narrow ((Binary64.parts x).toIntWithin_le (by decide) (by decide))

/-! ## Texts -/

theorem toLong_toText_long (n : Int64) : (string (long n).toText).toLong = n := by
  rw [← Int64.toInt_inj, toInt_toLong_string]
  exact (Numeral.converted_getD _ _ _).exact _ (Numeral.denotes_toString _) n.le_toInt n.toInt_le

theorem toInteger_toText_integer (n : Int32) : (string (integer n).toText).toInteger = n := by
  rw [← Int32.toInt_inj, toInt_toInteger_string]
  exact (Numeral.converted_getD _ _ _).exact _ (Numeral.denotes_toString _) n.le_toInt n.toInt_le

/-- A text is converted to the whole number that it denotes, if that has room, and else to zero; so
the text of a whole number is converted back to it. -/
theorem texts_convert :
    (∀ s : String,
      Numeral.Converted (-9223372036854775808) 9223372036854775807 s (string s).toLong.toInt ∧
        Numeral.Converted (-2147483648) 2147483647 s (string s).toInteger.toInt) ∧
      (∀ n : Int64, (string (long n).toText).toLong = n) ∧
      ∀ n : Int32, (string (integer n).toText).toInteger = n := by
  refine ⟨fun s => ⟨?_, ?_⟩, toLong_toText_long, toInteger_toText_integer⟩
  · rw [toInt_toLong_string]
    exact Numeral.converted_getD _ _ s
  · rw [toInt_toInteger_string]
    exact Numeral.converted_getD _ _ s

/-! ## From 64 bits to 32 -/

/-- What a value is as a whole number of 32 bits where it has no room in them: a long keeps its low
bits, a double stops at the nearest bound, and a text counts for nothing.  No other value is too
large. -/
def Narrowed (v : Value) : Prop :=
  match v.payload with
  | .long n => v.toInteger.toBitVec = n.toBitVec.setWidth 32
  | .double _ => (v.toLong.toInt < 0 → v.toInteger = Int32.minValue) ∧
      (0 < v.toLong.toInt → v.toInteger = Int32.maxValue)
  | .string _ => v.toInteger = 0
  | _ => False

/-- How the two whole numbers of a value stand to each other. -/
structure Narrows (v : Value) : Prop where
  exact : Narrow v.toLong.toInt → v.toInteger.toInt = v.toLong.toInt
  cut : ¬Narrow v.toLong.toInt → Narrowed v

/-- It is enough that the two are equal. -/
theorem Narrows.of_eq (h : v.toInteger.toInt = v.toLong.toInt) : Narrows v where
  exact _ := h
  cut hwide := absurd (h ▸ ⟨v.toInteger.le_toInt, v.toInteger.toInt_le⟩) hwide

theorem Narrows.of_payload (h : Narrows (of v.payload)) : Narrows v := ⟨h.exact, h.cut⟩

theorem narrows_long (n : Int64) : Narrows (long n) where
  exact h := by
    have hmod : (long n).toInteger.toInt = n.toInt.bmod 4294967296 := Int64.toInt_toInt32 n
    rw [hmod]
    exact Int.bmod_eq_of_le h.1 (Int.lt_of_le_of_lt h.2 (by decide))
  cut _ := (Int64.toBitVec_toInt32 n).trans (BitVec.signExtend_eq_setWidth_of_le _ (by decide))

theorem narrows_double (x : Float) : Narrows (double x) := by
  have hclamp : (double x).toInteger.toInt =
      max (-2147483648) (min 2147483647 (double x).toLong.toInt) := by
    rw [toInt_toInteger_double, toInt_toLong_double]
    exact Binary64.Parts.toIntWithin_within (by decide) (by decide) (by decide) (by decide) _
  constructor
  · rintro ⟨hlowest, hhighest⟩
    omega
  · intro hwide
    rw [Narrow] at hwide
    constructor
    · intro hneg
      rw [← Int32.toInt_inj, hclamp, Int32.toInt_minValue]
      omega
    · intro hpos
      rw [← Int32.toInt_inj, hclamp, Int32.toInt_maxValue]
      omega

theorem narrows_string (s : String) : Narrows (string s) := by
  have hwide := toInt_toLong_string s
  have hnarrow := toInt_toInteger_string s
  rw [Numeral.integerIn?_filter (by decide : (-9223372036854775808 : Int) ≤ -2147483648)
    (by decide : (2147483647 : Int) ≤ 9223372036854775807)] at hnarrow
  cases h : Numeral.integerIn? (-9223372036854775808) 9223372036854775807 s with
  | none =>
    rw [h] at hwide hnarrow
    exact .of_eq (hnarrow.trans hwide.symm)
  | some n =>
    rw [h, Option.filter_some] at hnarrow
    rw [h, Option.getD_some] at hwide
    constructor
    · intro hfits
      rw [hwide] at hfits ⊢
      rwa [if_pos (by simpa [Narrow] using hfits)] at hnarrow
    · intro hfits
      rw [hwide] at hfits
      rw [if_neg (by simpa [Narrow] using hfits)] at hnarrow
      exact Int32.toInt_inj.mp hnarrow

/-- The two whole numbers of a value agree where the larger one has room in 32 bits, and so a
parameter of 32 bits takes nothing from it; elsewhere they part as `Narrowed` says.  A date is no
whole number of 32 bits at all, and bytes are thought to be fewer than these can count. -/
theorem toInteger_toLong (v : Value) (hdate : v.kind ≠ .date)
    (hbuffer : ∀ bytes, v.payload = .buffer bytes → bytes.size < 2147483648) :
    (Narrow v.toLong.toInt → v.toInteger.toInt = v.toLong.toInt ∧
      (Parameter.integer.convert v).toLong = v.toLong) ∧
    (¬Narrow v.toLong.toInt → Narrowed v) := by
  have hnarrows : Narrows v := by
    obtain ⟨payload, isNull, name, typeName⟩ := v
    refine .of_payload ?_
    cases payload with
    | integer n => exact .of_eq (Int32.toInt_toInt64 n).symm
    | long n => exact narrows_long n
    | double x => exact narrows_double x
    | string s => exact narrows_string s
    | date t => exact absurd rfl hdate
    | boolean b => cases b <;> exact .of_eq rfl
    | buffer bytes =>
      have hsize := hbuffer bytes rfl
      refine .of_eq ?_
      exact (Int32.toInt_ofNat_of_lt hsize).trans (Int64.toInt_ofNat_of_lt (by omega)).symm
  refine ⟨fun h => ⟨hnarrows.exact h, ?_⟩, hnarrows.cut⟩
  rw [← Int64.toInt_inj, ← hnarrows.exact h]
  exact Int32.toInt_toInt64 v.toInteger

/-- A double beyond the lower bound, and three bytes. -/
theorem toInteger_toLong_double :
    ¬Narrow (double (Binary64.ofInt (-3000000000))).toLong.toInt ∧
      (double (Binary64.ofInt (-3000000000))).toInteger = Int32.minValue ∧
      (buffer ⟨#[1, 2, 3]⟩).toInteger.toInt = (buffer ⟨#[1, 2, 3]⟩).toLong.toInt := by
  have hwide : ¬Narrow (double (Binary64.ofInt (-3000000000))).toLong.toInt := by decide +kernel
  have hnarrowed := (toInteger_toLong (double (Binary64.ofInt (-3000000000))) (by decide)
    fun _ h => by cases h).2 hwide
  have hbytes := toInteger_toLong (buffer ⟨#[1, 2, 3]⟩) (by decide) fun bytes h => by
    cases h
    decide
  exact ⟨hwide, hnarrowed.1 (by decide +kernel), (hbytes.1 (by decide)).1⟩

end Value

end Formulary

import Formulary.Value.Conversion

/-!
# How values compare

Two values are compared in one of three ways, which their kinds choose together: as texts, as whole
numbers, or as doubles.  Each way gives the reverse answer when the sides are swapped; only doubles
may give none.

* `Value.AsTexts`, `Value.AsWholes`: the kinds that choose the first two ways.
* `Value.compare_swap`: the reverse of a comparison.
* `Value.Incomparable`, `Value.compare_eq_none_iff`: the values that do not compare.
* `Value.Homogeneous`: three values that are compared in one way, texts or whole numbers.
-/

namespace Formulary

/-! ## Doubles -/

namespace Binary64

variable {x y : Float}

theorem rank?_eq_none_iff : rank? x = none ↔ parts x = .nan := by
  rw [rank?]
  split <;> simp [*]

theorem order_swap (x y : Float) : order y x = (order x y).map Ordering.swap := by
  rw [order, order]
  cases rank? x with
  | none => cases rank? y <;> rfl
  | some i =>
    cases rank? y with
    | none => rfl
    | some j => exact congrArg some Std.OrientedOrd.eq_swap

/-- Two doubles compare unless one of them is no number. -/
theorem order_eq_none_iff : order x y = none ↔ parts x = .nan ∨ parts y = .nan := by
  rw [← rank?_eq_none_iff, ← rank?_eq_none_iff, order]
  cases rank? x <;> cases rank? y <;> simp

end Binary64

namespace Value

variable {a b c : Value}

/-! ## The three ways -/

/-- One of two values is a text. -/
def AsTexts (a b : Value) : Prop := a.kind = .string ∨ b.kind = .string

/-- Both values are whole numbers, booleans or dates. -/
def AsWholes (a b : Value) : Prop := a.kind.isIntegral ∧ b.kind.isIntegral

theorem AsTexts.symm (h : AsTexts a b) : AsTexts b a := Or.symm h

theorem AsWholes.symm (h : AsWholes a b) : AsWholes b a := And.symm h

/-- A text is no whole number. -/
theorem AsWholes.not_asTexts (h : AsWholes a b) : ¬AsTexts a b := by
  rintro (htext | htext)
  · rw [AsWholes, htext] at h
    cases h.1
  · rw [AsWholes, htext] at h
    cases h.2

theorem compare_of_asTexts (h : AsTexts a b) :
    a.compare b = some (Ord.compare a.toText b.toText) := by
  rw [compare, if_pos (by simpa [isString, AsTexts] using h)]

theorem compare_of_asWholes (h : AsWholes a b) :
    a.compare b = some (Ord.compare a.toLong.toInt b.toLong.toInt) := by
  have htexts : ¬(a.isString || b.isString) = true := by
    simpa [isString, AsTexts] using h.not_asTexts
  rw [compare, if_neg htexts, if_pos (by simpa [AsWholes] using h)]

theorem compare_of_doubles (htexts : ¬AsTexts a b) (hwholes : ¬AsWholes a b) :
    a.compare b = Binary64.order a.toDouble b.toDouble := by
  rw [compare, if_neg (by simpa [isString, AsTexts] using htexts),
    if_neg (by simpa [AsWholes] using hwholes)]

/-- The sides of a comparison may be swapped. -/
theorem compare_swap (a b : Value) : b.compare a = (a.compare b).map Ordering.swap := by
  by_cases htexts : AsTexts a b
  · rw [compare_of_asTexts htexts, compare_of_asTexts htexts.symm]
    exact congrArg some Std.OrientedOrd.eq_swap
  by_cases hwholes : AsWholes a b
  · rw [compare_of_asWholes hwholes, compare_of_asWholes hwholes.symm]
    exact congrArg some Std.OrientedOrd.eq_swap
  · rw [compare_of_doubles htexts hwholes,
      compare_of_doubles (htexts ∘ AsTexts.symm) (hwholes ∘ AsWholes.symm)]
    exact Binary64.order_swap _ _

/-- Values that do not compare: neither is a text, not both are whole numbers, and one of them is no
number as a double. -/
structure Incomparable (a b : Value) : Prop where
  left : a.kind ≠ .string
  right : b.kind ≠ .string
  inexact : ¬(a.kind.isIntegral ∧ b.kind.isIntegral)
  nan : Binary64.parts a.toDouble = .nan ∨ Binary64.parts b.toDouble = .nan

theorem compare_eq_none_iff : a.compare b = none ↔ Incomparable a b := by
  by_cases htexts : AsTexts a b
  · rw [compare_of_asTexts htexts]
    exact ⟨nofun, fun h => absurd htexts (not_or.mpr ⟨h.left, h.right⟩)⟩
  by_cases hwholes : AsWholes a b
  · rw [compare_of_asWholes hwholes]
    exact ⟨nofun, fun h => absurd hwholes h.inexact⟩
  · obtain ⟨hleft, hright⟩ := not_or.mp htexts
    rw [compare_of_doubles htexts hwholes, Binary64.order_eq_none_iff]
    exact ⟨fun h => ⟨hleft, hright, hwholes, h⟩, Incomparable.nan⟩

/-- What a comparison looks at has no names. -/
theorem compare_names (a b : Value) (name typeName name' typeName' : Option String) :
    compare { a with name := name, typeName := typeName }
      { b with name := name', typeName := typeName' } = a.compare b := rfl

/-! ## Values of one sort -/

/-- Three values that are all texts, or all whole numbers, booleans and dates. -/
def Homogeneous (a b c : Value) : Prop :=
  (∀ v ∈ [a, b, c], v.kind = .string) ∨ ∀ v ∈ [a, b, c], v.kind.isIntegral

/-- Such values are ordered as their texts are, or as whole numbers are. -/
theorem Homogeneous.exists_order (h : Homogeneous a b c) :
    ∃ order : Value → Value → Ordering, Std.TransCmp order ∧
      ∀ v ∈ [a, b, c], ∀ w ∈ [a, b, c], v.compare w = some (order v w) := by
  rcases h with h | h
  · exact ⟨compareOn toText, inferInstance, fun v hv w _ => compare_of_asTexts (.inl (h v hv))⟩
  · exact ⟨compareOn fun v => v.toLong.toInt, inferInstance,
      fun v hv w hw => compare_of_asWholes ⟨h v hv, h w hw⟩⟩

end Value

end Formulary

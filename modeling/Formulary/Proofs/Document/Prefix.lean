import Formulary.Document.Basic

/-!
# Beginnings of documents

What has been read of a row of terms is a pile of *leads*: for every open parenthesis, and for the
row itself, the operands and operators that wait for their next term.

* `Lead`: what waits for a term.
* `Expecting`, `Complete`: a row before a term and after one, with its open parentheses.
* `Complete.formula`: a row without open parentheses after a term is that of a formula.
-/

namespace Formulary

/-! ## Members, items and arguments one by one -/

theorem Formula.rows_append (fs gs : List Formula) :
    Formula.rows (fs ++ gs) = Formula.rows fs ++ Formula.rows gs := by
  induction fs with
  | nil => rfl
  | cons f fs ih => rw [List.cons_append, rows, rows, ih, List.cons_append]

theorem Formula.allValid_append {ops : List String} (fs gs : List Formula) :
    Formula.allValid ops (fs ++ gs) = (Formula.allValid ops fs && Formula.allValid ops gs) := by
  induction fs with
  | nil => rfl
  | cons f fs ih => rw [List.cons_append, allValid, allValid, ih, Bool.and_assoc]

theorem Entry.outlines_append (es es' : List Entry) :
    Entry.outlines (es ++ es') = Entry.outlines es ++ Entry.outlines es' := by
  induction es with
  | nil => rfl
  | cons e es ih => rw [List.cons_append, outlines, outlines, ih, List.cons_append]

theorem Entry.allValid_append {ops : List String} (es es' : List Entry) :
    Entry.allValid ops (es ++ es') = (Entry.allValid ops es && Entry.allValid ops es') := by
  induction es with
  | nil => rfl
  | cons e es ih => rw [List.cons_append, allValid, allValid, ih, Bool.and_assoc]

theorem Binding.outlines_append (ms ms' : List Binding) :
    Binding.outlines (ms ++ ms') = Binding.outlines ms ++ Binding.outlines ms' := by
  induction ms with
  | nil => rfl
  | cons m ms ih => rw [List.cons_append, outlines, outlines, ih, List.cons_append]

theorem Binding.allValid_append {ops : List String} (ms ms' : List Binding) :
    Binding.allValid ops (ms ++ ms') = (Binding.allValid ops ms && Binding.allValid ops ms') := by
  induction ms with
  | nil => rfl
  | cons m ms ih => rw [List.cons_append, allValid, allValid, ih, Bool.and_assoc]

/-! ## Leads -/

/-- A formula and an operator that wait for a term, if anything stands before it. -/
abbrev Lead := Option (Formula × String)

namespace Lead

def row : Lead → List ElementOutline
  | none => []
  | some (left, operator) => left.row ++ [.leaf .operator operator]

def valid (ops : List String) : Lead → Bool
  | none => true
  | some (left, operator) => left.valid ops && ops.contains operator

/-- The formula with the term that was waited for. -/
def formula (t : Term) : Lead → Formula
  | none => .term t
  | some (left, operator) => .operate left operator t

theorem row_formula (l : Lead) (t : Term) : (l.formula t).row = l.row ++ t.row := by
  cases l with
  | none => rfl
  | some p => simp [formula, row, Formula.row]

theorem valid_formula {ops : List String} {l : Lead} {t : Term} (hl : l.valid ops)
    (ht : t.valid ops) : (l.formula t).valid ops := by
  cases l with
  | none => exact ht
  | some p => rw [formula, Formula.valid, Bool.and_eq_true]; exact ⟨hl, ht⟩

end Lead

/-- The row of leads around a term, the innermost first. -/
def leadsRow : List Lead → List ElementOutline
  | [] => []
  | l :: ls => leadsRow ls ++ l.row ++ [.leaf .symbol "("]

/-! ## Rows -/

inductive Expecting (ops : List String) : Nat → List ElementOutline → Prop where
  | mk {l : Lead} {ls : List Lead} : l.valid ops → (∀ l' ∈ ls, l'.valid ops) →
      Expecting ops ls.length (leadsRow ls ++ l.row)

inductive Complete (ops : List String) : Nat → List ElementOutline → Prop where
  | mk {f : Formula} {ls : List Lead} : f.valid ops → (∀ l' ∈ ls, l'.valid ops) →
      Complete ops ls.length (leadsRow ls ++ f.row)

variable {ops : List String} {parens : Nat} {row : List ElementOutline}

theorem Expecting.nil : Expecting ops 0 [] := @Expecting.mk ops none [] rfl (by simp)

theorem Expecting.openParen (h : Expecting ops parens row) :
    Expecting ops (parens + 1) (row ++ [.leaf .symbol "("]) := by
  obtain @⟨l, ls, hl, hls⟩ := h
  have := @Expecting.mk ops none (l :: ls) rfl (by simpa using ⟨hl, hls⟩)
  simpa [leadsRow, Lead.row] using this

theorem Expecting.term (h : Expecting ops parens row) {t : Term} (ht : t.valid ops) :
    Complete ops parens (row ++ t.row) := by
  obtain @⟨l, ls, hl, hls⟩ := h
  have := Complete.mk (Lead.valid_formula hl ht) hls
  rwa [Lead.row_formula, ← List.append_assoc] at this

theorem Complete.operator (h : Complete ops parens row) {operator : String}
    (ho : ops.contains operator) :
    Expecting ops parens (row ++ [.leaf .operator operator]) := by
  obtain @⟨f, ls, hf, hls⟩ := h
  have hl : Lead.valid ops (some (f, operator)) := by rw [Lead.valid, hf, ho]; rfl
  have := Expecting.mk hl hls
  rwa [Lead.row, ← List.append_assoc] at this

theorem Complete.closeParen (h : Complete ops (parens + 1) row) :
    Complete ops parens (row ++ [.leaf .symbol ")"]) := by
  generalize hn : parens + 1 = n at h
  obtain @⟨f, ls, hf, hls⟩ := h
  cases ls with
  | nil => simp at hn
  | cons l ls =>
    simp only [List.forall_mem_cons] at hls
    have hls' := Expecting.mk hls.1 hls.2
    have := hls'.term (t := .paren f) hf
    obtain rfl : parens = ls.length := by simpa using hn
    simpa [leadsRow, Term.row] using this

theorem Complete.formula (h : Complete ops 0 row) : ∃ f : Formula, f.valid ops ∧ f.row = row := by
  generalize hn : 0 = n at h
  obtain @⟨f, ls, hf, hls⟩ := h
  obtain rfl : ls = [] := List.length_eq_zero_iff.mp hn.symm
  exact ⟨f, hf, rfl⟩

end Formulary

import Formulary.Proofs.Document.Prefix

/-!
# Parentheses in a row

The symbols of a row of elements open and close parentheses.  A term and a formula close all that
they open, and what has been read of a row leaves open as many as it says.

* `parensAfter`: one element, which closes no parenthesis that is not open.
* `ElementOutline.unclosed`: the elements of a row.
* `Formula.unclosed_row`: those of a formula.
* `Expecting.unclosed`, `Complete.unclosed`: those of a row that has been read in part.
-/

namespace Formulary

/-- The parentheses that are open after an element, if it closes none that is not open. -/
def parensAfter (n : Nat) (kind : ElementKind) (text : String) : Option Nat :=
  if kind = .symbol ∧ text = "(" then some (n + 1)
  else if kind = .symbol ∧ text = ")" then (if n = 0 then none else some (n - 1))
  else some n

theorem parensAfter_open (n : Nat) : parensAfter n .symbol "(" = some (n + 1) := if_pos ⟨rfl, rfl⟩

theorem parensAfter_close (n : Nat) : parensAfter (n + 1) .symbol ")" = some n := by
  rw [parensAfter, if_neg (by decide), if_pos ⟨rfl, rfl⟩, if_neg (Nat.succ_ne_zero n)]
  rfl

theorem parensAfter_of_ne {kind : ElementKind} (h : kind ≠ .symbol) (n : Nat) (text : String) :
    parensAfter n kind text = some n := by
  rw [parensAfter, if_neg fun hopen => h hopen.1, if_neg fun hclose => h hclose.1]

namespace ElementOutline

def kind : ElementOutline → ElementKind
  | mk kind _ _ => kind

def text : ElementOutline → String
  | mk _ text _ => text

/-- The parentheses that are open after a row, if it closes none that is not open. -/
def unclosed : List ElementOutline → Nat → Option Nat
  | [], n => some n
  | o :: row, n => (parensAfter n o.kind o.text).bind (unclosed row)

theorem unclosed_append (row row' : List ElementOutline) (n : Nat) :
    unclosed (row ++ row') n = (unclosed row n).bind (unclosed row') := by
  induction row generalizing n with
  | nil => rfl
  | cons o row ih =>
    rw [List.cons_append, unclosed, unclosed, Option.bind_assoc]
    exact congrArg _ (funext ih)

theorem unclosed_single (o : ElementOutline) (n : Nat) :
    unclosed [o] n = parensAfter n o.kind o.text := by
  rw [unclosed]
  cases parensAfter n o.kind o.text <;> rfl

theorem unclosed_cons_of_ne {kind : ElementKind} (h : kind ≠ .symbol) (text : String)
    (children row : List ElementOutline) (n : Nat) :
    unclosed (.mk kind text children :: row) n = unclosed row n := by
  rw [unclosed, ElementOutline.kind, parensAfter_of_ne h]
  rfl

theorem unclosed_wrapped {row : List ElementOutline} (h : ∀ n, unclosed row n = some n) (n : Nat) :
    unclosed (.leaf .symbol "(" :: (row ++ [.leaf .symbol ")"])) n = some n := by
  show (parensAfter n .symbol "(").bind (unclosed (row ++ [.leaf .symbol ")"])) = some n
  rw [parensAfter_open, Option.bind_some, unclosed_append, h, Option.bind_some, unclosed_single]
  exact parensAfter_close n

end ElementOutline

open ElementOutline

/-! ## Formulas -/

mutual

theorem Term.unclosed_row : ∀ (t : Term) (n : Nat), unclosed t.row n = some n
  | .number text, n => unclosed_cons_of_ne (by decide) text [] [] n
  | .string text, n => unclosed_cons_of_ne (by decide) text [] [] n
  | .name text, n => unclosed_cons_of_ne (by decide) text [] [] n
  | .call function _, n => unclosed_cons_of_ne (by decide) function _ [] n
  | .paren inside, n => unclosed_wrapped (Formula.unclosed_row inside) n

/-- A formula closes the parentheses that it opens. -/
theorem Formula.unclosed_row : ∀ (f : Formula) (n : Nat), unclosed f.row n = some n
  | .term t, n => Term.unclosed_row t n
  | .operate left operator right, n => by
    rw [Formula.row, unclosed_append, Formula.unclosed_row left n, Option.bind_some]
    exact (unclosed_cons_of_ne (by decide) operator [] right.row n).trans
      (Term.unclosed_row right n)

end

/-! ## Rows that are read in part -/

variable {ops : List String} {parens : Nat} {row : List ElementOutline}

theorem Lead.unclosed_row (l : Lead) (n : Nat) : unclosed (Lead.row l) n = some n := by
  cases l with
  | none => rfl
  | some p =>
    rw [Lead.row, unclosed_append, p.1.unclosed_row, Option.bind_some]
    exact unclosed_cons_of_ne (by decide) p.2 [] [] n

theorem unclosed_leadsRow (ls : List Lead) : unclosed (leadsRow ls) 0 = some ls.length := by
  induction ls with
  | nil => rfl
  | cons l ls ih =>
    rw [leadsRow, unclosed_append, unclosed_append, ih, Option.bind_some, Lead.unclosed_row,
      Option.bind_some, unclosed_single]
    exact parensAfter_open ls.length

theorem Expecting.unclosed (h : Expecting ops parens row) :
    ElementOutline.unclosed row 0 = some parens := by
  cases h with
  | @mk l ls _ _ =>
    rw [unclosed_append, unclosed_leadsRow, Option.bind_some, Lead.unclosed_row]

theorem Complete.unclosed (h : Complete ops parens row) :
    ElementOutline.unclosed row 0 = some parens := by
  cases h with
  | @mk f ls _ _ => rw [unclosed_append, unclosed_leadsRow, Option.bind_some, f.unclosed_row]

end Formulary

import Formulary.Proofs.Library.Dispatch
import Formulary.Proofs.Value.Order

/-!
# The comparison operators

The six comparison operators of the system library ask one comparison of the two values, so that
they fit together as those of an order do; where the values do not compare, only `!=` holds.

* `BaseLibrary.Answers`: what an operator says of two values.
* `BaseLibrary.comparisons`, `BaseLibrary.answers_iff`: what each of the six asks.
* `BaseLibrary.Verdict`: what all six say of two values.
* `BaseLibrary.comparisons_coherent`: all six, for any two values, and for values of one sort.
-/

namespace Formulary

namespace BaseLibrary

variable {a b c : Value} {symbol : String} {test : Option Ordering → Bool} {answer : Bool}

/-! ## Answers -/

/-- In every world, the operator of the system library gives a truth value and does nothing else. -/
def Answers (symbol : String) (a b : Value) (answer : Bool) : Prop :=
  ∀ (m : Type → Type) [Monad m] [LawfulMonad m] [Console m],
    (Table.ofMembers (members : List (Member m))).operate symbol a b =
      some (pure (.boolean answer))

theorem Answers.eq {answer' : Bool} (h : Answers symbol a b answer)
    (h' : Answers symbol a b answer') : answer = answer' := by
  have haction : (pure (.boolean answer) : Action Transcript) = pure (.boolean answer') :=
    Option.some.inj ((h Transcript).symm.trans (h' Transcript))
  have hresult := congrFun (congrArg ExceptT.run haction) []
  cases hresult
  rfl

/-- The comparison operators, with what each of them asks of a comparison. -/
def comparisons : List (String × (Option Ordering → Bool)) :=
  [("==", isEqual), ("!=", fun o => !isEqual o), (">", isGreater), ("<", isLess),
    (">=", fun o => isGreater o || isEqual o), ("<=", fun o => isLess o || isEqual o)]

theorem mem_comparisons : ("<", isLess) ∈ comparisons ∧ ("==", isEqual) ∈ comparisons ∧
    (">", isGreater) ∈ comparisons ∧ ("<=", fun o => isLess o || isEqual o) ∈ comparisons ∧
    (">=", fun o => isGreater o || isEqual o) ∈ comparisons ∧
    ("!=", fun o => !isEqual o) ∈ comparisons := by
  simp [comparisons]

theorem answers_compare (h : (symbol, test) ∈ comparisons) (a b : Value) :
    Answers symbol a b (test (a.compare b)) := by
  intro m _ _ _
  have hhandler : (Table.ofMembers (members : List (Member m))).operate symbol a b =
      some (Handler.binary (fun x y => pure (.boolean (test (x.compare y)))) ⟨[a, b], 2⟩) := by
    simp only [comparisons, List.mem_cons, Prod.mk.injEq, List.not_mem_nil, or_false] at h
    rcases h with ⟨rfl, rfl⟩ | ⟨rfl, rfl⟩ | ⟨rfl, rfl⟩ | ⟨rfl, rfl⟩ | ⟨rfl, rfl⟩ | ⟨rfl, rfl⟩
    all_goals rfl
  rw [hhandler, Handler.binary_apply]

theorem answers_iff (h : (symbol, test) ∈ comparisons) :
    Answers symbol a b answer ↔ answer = test (a.compare b) :=
  ⟨fun hanswer => hanswer.eq (answers_compare h a b), fun heq => heq ▸ answers_compare h a b⟩

/-! ## Verdicts -/

/-- What the six comparison operators say of two values, in both orders. -/
structure Verdict (a b : Value) (less equal greater : Bool) : Prop where
  lt : Answers "<" a b less
  eq : Answers "==" a b equal
  gt : Answers ">" a b greater
  le : Answers "<=" a b (less || equal)
  ge : Answers ">=" a b (greater || equal)
  ne : Answers "!=" a b (!equal)
  lt_swap : Answers "<" b a greater
  eq_swap : Answers "==" b a equal
  gt_swap : Answers ">" b a less

theorem tests_swap (o : Option Ordering) : isLess (o.map Ordering.swap) = isGreater o ∧
    isEqual (o.map Ordering.swap) = isEqual o ∧ isGreater (o.map Ordering.swap) = isLess o := by
  rcases o with _ | _ | _ | _ <;> decide

theorem verdict (a b : Value) :
    Verdict a b (isLess (a.compare b)) (isEqual (a.compare b)) (isGreater (a.compare b)) := by
  obtain ⟨hlt, heq, hgt, hle, hge, hne⟩ := mem_comparisons
  obtain ⟨hless, hequal, hgreater⟩ := tests_swap (a.compare b)
  rw [← Value.compare_swap] at hless hequal hgreater
  exact ⟨answers_compare hlt a b, answers_compare heq a b, answers_compare hgt a b,
    answers_compare hle a b, answers_compare hge a b, answers_compare hne a b,
    hless ▸ answers_compare hlt b a, hequal ▸ answers_compare heq b a,
    hgreater ▸ answers_compare hgt b a⟩

/-- Of values that compare, one of the three answers is true; of others none is. -/
theorem count_answers (o : Option Ordering) :
    [isLess o, isEqual o, isGreater o].count true = if o = none then 0 else 1 := by
  rcases o with _ | _ | _ | _ <;> decide

/-! ## Values of one sort -/

def IsTransitive (symbol : String) (a b c : Value) : Prop :=
  Answers symbol a b true → Answers symbol b c true → Answers symbol a c true

theorem isTransitive_of_mem (h : (symbol, test) ∈ comparisons)
    (htest : test (a.compare b) → test (b.compare c) → test (a.compare c)) :
    IsTransitive symbol a b c := by
  rw [IsTransitive, answers_iff h, answers_iff h, answers_iff h]
  exact fun hab hbc => (htest hab.symm hbc.symm).symm

theorem tests_some (o : Ordering) : (isLess (some o) ↔ o = .lt) ∧ (isEqual (some o) ↔ o = .eq) ∧
    (isGreater (some o) ↔ o = .gt) ∧ (isLess (some o) || isEqual (some o)) = o.isLE ∧
    (isGreater (some o) || isEqual (some o)) = o.isGE := by
  cases o <;> decide

theorem isTransitive_of_homogeneous (h : Value.Homogeneous a b c)
    (hsymbol : symbol ∈ ["<", "==", ">", "<=", ">="]) : IsTransitive symbol a b c := by
  obtain ⟨order, htrans, hcompare⟩ := h.exists_order
  obtain ⟨hlt, heq, hgt, hle, hge, -⟩ := mem_comparisons
  have hab := hcompare a (by simp) b (by simp)
  have hbc := hcompare b (by simp) c (by simp)
  have hac := hcompare a (by simp) c (by simp)
  simp only [List.mem_cons, List.not_mem_nil, or_false] at hsymbol
  rcases hsymbol with rfl | rfl | rfl | rfl | rfl
  · refine isTransitive_of_mem hlt ?_
    simp only [hab, hbc, hac, tests_some]
    exact Std.TransCmp.lt_trans
  · refine isTransitive_of_mem heq ?_
    simp only [hab, hbc, hac, tests_some]
    exact Std.TransCmp.eq_trans
  · refine isTransitive_of_mem hgt ?_
    simp only [hab, hbc, hac, tests_some]
    exact Std.TransCmp.gt_trans
  · refine isTransitive_of_mem hle ?_
    simp only [hab, hbc, hac, tests_some]
    exact Std.TransCmp.isLE_trans
  · refine isTransitive_of_mem hge ?_
    simp only [hab, hbc, hac, tests_some]
    exact Std.TransCmp.isGE_trans

theorem total_of_homogeneous (h : Value.Homogeneous a b c) :
    Answers "<=" a b true ∨ Answers "<=" b a true := by
  obtain ⟨order, htrans, hcompare⟩ := h.exists_order
  obtain ⟨-, -, -, hle, -⟩ := mem_comparisons
  have hswap : order b a = (order a b).swap := Std.OrientedCmp.eq_swap
  rw [answers_iff hle, answers_iff hle, hcompare a (by simp) b (by simp),
    hcompare b (by simp) a (by simp), hswap]
  cases order a b <;> decide

/-! ## The result -/

/-- The six comparison operators ask one comparison, which the order of the sides reverses.  Exactly
one of `<`, `==` and `>` holds, or none where values do not compare; the other three operators say
what follows from these, and names do not matter.  Among texts, and among whole numbers, booleans
and dates, the order is total and transitive. -/
theorem comparisons_coherent (a b : Value) :
    b.compare a = (a.compare b).map Ordering.swap ∧
      (∃ less equal greater, Verdict a b less equal greater ∧
        (a.Incomparable b → [less, equal, greater].count true = 0) ∧
        (¬a.Incomparable b → [less, equal, greater].count true = 1)) ∧
      (∀ name typeName name' typeName' : Option String,
        Value.compare { a with name := name, typeName := typeName }
          { b with name := name', typeName := typeName' } = a.compare b ∧
        ∀ symbol ∈ comparisons.map Prod.fst, ∀ answer,
          Answers symbol { a with name := name, typeName := typeName }
            { b with name := name', typeName := typeName' } answer ↔ Answers symbol a b answer) ∧
      ∀ c, Value.Homogeneous a b c → (Answers "<=" a b true ∨ Answers "<=" b a true) ∧
        ∀ symbol ∈ ["<", "==", ">", "<=", ">="], IsTransitive symbol a b c := by
  refine ⟨Value.compare_swap a b, ⟨_, _, _, verdict a b, ?_, ?_⟩, ?_, fun c h =>
    ⟨total_of_homogeneous h, fun _ => isTransitive_of_homogeneous h⟩⟩
  · intro h
    rw [count_answers, if_pos (Value.compare_eq_none_iff.mpr h)]
  · intro h
    rw [count_answers, if_neg (h ∘ Value.compare_eq_none_iff.mp)]
  · intro name typeName name' typeName'
    have hnames := Value.compare_names a b name typeName name' typeName'
    refine ⟨hnames, fun symbol hsymbol answer => ?_⟩
    obtain ⟨⟨_, test⟩, hmem, rfl⟩ := List.mem_map.mp hsymbol
    rw [answers_iff hmem, answers_iff hmem, hnames]

end BaseLibrary

end Formulary

import Formulary.Proofs.Calculator.Failure
import Formulary.Proofs.Library.Dispatch

/-!
# What libraries give

An operator makes a new value, and so does a method, except that a printer passes on the value that
it is given.  A variable holds a new value too, or the null value.  So a name or a null flag comes
into an evaluation at a variable only, and leaves it at the first operator or method that is no
printer.

* `Gives`: what all values have that an evaluation can come to, with rules for its parts.
* `Value.IsFresh`, `Value.ResultOf`, `Value.HeldBy`: new values, results of methods, and what
  variables hold.
* `Member.Honest`: a member that gives no other values.
* `BaseLibrary.members_honest`, `ArithmeticLibrary.members_honest`: the members of both libraries.
* `Table.honest_ofMembers`: every use of a library of such members.
-/

namespace Formulary

open Calculator

variable {m : Type → Type} [Monad m] [LawfulMonad m] {ε α β : Type}

/-! ## Values that an evaluation can come to -/

/-- Every value that an evaluation can come to has a property: the evaluation is one with such
values only. -/
def Gives (P : α → Prop) (x : ExceptT ε m α) : Prop :=
  ∃ y : ExceptT ε m { a // P a }, x = Subtype.val <$> y

section Gives

variable {P : α → Prop} {Q : β → Prop} {x : ExceptT ε m α}

theorem gives_pure {a : α} (h : P a) : Gives P (pure a : ExceptT ε m α) :=
  ⟨pure ⟨a, h⟩, (map_pure Subtype.val (⟨a, h⟩ : { a // P a })).symm⟩

theorem gives_throw (e : ε) : Gives P (throw e : ExceptT ε m α) := by
  refine ⟨throw e, ExceptT.ext ?_⟩
  simp

theorem gives_trivial (x : ExceptT ε m α) : Gives (fun _ => True) x := by
  refine ⟨(fun a => ⟨a, trivial⟩) <$> x, ?_⟩
  rw [Functor.map_map]
  exact (id_map x).symm

theorem Gives.bind {f : α → ExceptT ε m β} (hx : Gives P x) (hf : ∀ a, P a → Gives Q (f a)) :
    Gives Q (x >>= f) := by
  obtain ⟨y, rfl⟩ := hx
  choose g hg using hf
  refine ⟨y >>= fun a => g a.val a.property, ?_⟩
  rw [bind_map_left, map_bind]
  congr 1
  funext a
  exact hg a.val a.property

theorem Gives.map {f : α → β} (hx : Gives P x) (hf : ∀ a, P a → Q (f a)) : Gives Q (f <$> x) := by
  rw [← bind_pure_comp]
  exact hx.bind fun a ha => gives_pure (hf a ha)

theorem Gives.mono {P' : α → Prop} (hx : Gives P x) (h : ∀ a, P a → P' a) : Gives P' x := by
  rw [← id_map x]
  exact hx.map h

theorem Gives.adapt {ε' : Type} (hx : Gives P x) (f : ε → ε') : Gives P (x.adapt f) := by
  obtain ⟨y, rfl⟩ := hx
  exact ⟨y.adapt f, adapt_map f Subtype.val y⟩

theorem gives_lift_bind (x : m α) {f : α → ExceptT ε m β} (h : ∀ a, Gives Q (f a)) :
    Gives Q (ExceptT.lift x >>= f) :=
  (gives_trivial (ExceptT.lift x)).bind fun a _ => h a

theorem gives_ofExcept {r : Except ε α} (h : ∀ a, r = .ok a → P a) :
    Gives P (ExceptT.mk (pure r) : ExceptT ε m α) := by
  cases r with
  | ok a => exact gives_pure (h a rfl)
  | error e => exact gives_throw e

theorem gives_mapM {R : α → β → Prop} {f : α → ExceptT ε m β} {as : List α}
    (h : ∀ a ∈ as, Gives (R a) (f a)) : Gives (List.Forall₂ R as) (as.mapM f) := by
  induction as with
  | nil => exact gives_pure .nil
  | cons a as ih =>
    rw [List.forall_mem_cons] at h
    rw [List.mapM_cons]
    exact h.1.bind fun b hb => (ih h.2).bind fun bs hbs => gives_pure (.cons hb hbs)

theorem Gives.of_yields {W : Type} {s : Interpretation m W} {w w' : W} {x : Evaluation m α} {a : α}
    (hx : Gives P x) (h : s.Yields x w a w') : P a := by
  obtain ⟨y, rfl⟩ := hx
  rw [← bind_pure_comp, Interpretation.yields_bind] at h
  obtain ⟨b, w₁, -, hb⟩ := h
  obtain ⟨rfl, -⟩ := Interpretation.yields_pure.mp hb
  exact b.property

end Gives

/-! ## Values -/

/-- The methods that print their argument and pass it on, under their full names. -/
def BaseLibrary.printers : List String := ["system.sysout", "system.syserr"]

def BaseLibrary.variableNames : List String :=
  ["system.true", "system.false", "system.null", "system.sysdate"]

omit [LawfulMonad m] in
theorem BaseLibrary.variableNames_eq [Console m] :
    ((members : List (Member m)).filterMap Member.var?).map (fun x => "system" ++ "." ++ x.name) =
      variableNames := rfl

namespace Value

open BaseLibrary

/-- A value of which nothing is told but what it holds. -/
def IsFresh (v : Value) : Prop := v = .of v.payload

/-- The result of a method: a printer passes on its argument, and any other method makes a new
value. -/
def ResultOf (method : String) (arguments : List Value) (v : Value) : Prop :=
  if method ∈ printers then arguments = [v] else v.IsFresh

/-- What the variable of a name holds: the null value for one name, and a new value for any
other. -/
structure HeldBy (name : String) (v : Value) : Prop where
  mem : name ∈ variableNames
  eq : v = if name = "system.null" then .null else .of v.payload

theorem isFresh_of (payload : Payload) : (of payload).IsFresh := rfl

theorem IsFresh.resultOf {method : String} {v : Value} (h : v.IsFresh)
    (hmethod : method ∉ printers) (arguments : List Value) : v.ResultOf method arguments := by
  rw [ResultOf, if_neg hmethod]
  exact h

theorem resultOf_printer {method : String} (h : method ∈ printers) (v : Value) :
    v.ResultOf method [v] := by
  rw [ResultOf, if_pos h]

theorem IsFresh.heldBy {name : String} {v : Value} (h : v.IsFresh)
    (hname : name ∈ variableNames) (hnull : name ≠ "system.null") : v.HeldBy name :=
  ⟨hname, by rw [if_neg hnull]; exact h⟩

end Value

/-! ## Members -/

/-- A member of a library gives new values only, except that a printer passes on its argument and
that one variable is null. -/
def Member.Honest (library : String) : Member m → Prop
  | .operator _ _ _ handler => ∀ x y, Gives Value.IsFresh (handler ⟨[x, y], 2⟩)
  | .method name s handler => ∀ arguments : List Value, s.fits arguments.length →
    Gives (Value.ResultOf (library ++ "." ++ name) arguments)
      (handler ⟨s.convert arguments, s.arity⟩)
  | .constant name value => value.HeldBy (library ++ "." ++ name)
  | .producer name read => Gives (Value.HeldBy (library ++ "." ++ name)) read
  | .otherMethods _ | .otherVariables _ => False

theorem Member.honest_operator {library symbol : String} {p q : Parameter}
    {f : Value → Value → Value} (h : ∀ x y, (f x y).IsFresh) :
    (Member.operator symbol p q (.binary fun x y => pure (f x y)) : Member m).Honest library := by
  intro x y
  rw [Handler.binary_apply]
  exact gives_pure (h x y)

theorem Member.honest_unary {library name : String} {p : Parameter} {f : Value → Action m}
    (h : ∀ x, Gives (Value.ResultOf (library ++ "." ++ name) [x]) (f (p.convert x))) :
    (Member.method name ⟨[p], none⟩ (.unary f) : Member m).Honest library := by
  intro arguments hfits
  obtain ⟨x, rfl⟩ := List.length_eq_one_iff.mp (of_decide_eq_true hfits)
  exact (Handler.unary_apply f (p.convert x) 1).symm ▸ h x

theorem Member.honest_binary {library name : String} {p q : Parameter}
    {f : Value → Value → Action m}
    (h : ∀ x y, Gives (Value.ResultOf (library ++ "." ++ name) [x, y])
      (f (p.convert x) (q.convert y))) :
    (Member.method name ⟨[p, q], none⟩ (.binary f) : Member m).Honest library := by
  intro arguments hfits
  obtain ⟨x, y, rfl⟩ := List.length_eq_two.mp (of_decide_eq_true hfits)
  exact (Handler.binary_apply f (p.convert x) (q.convert y) 2).symm ▸ h x y

namespace BaseLibrary

variable [Console m]

theorem printer_honest {name : String} (h : "system" ++ "." ++ name ∈ printers)
    (channel : Channel) : (printer name channel : Member m).Honest "system" :=
  Member.honest_unary fun x => gives_lift_bind _ fun _ => gives_pure (Value.resultOf_printer h x)

theorem toDate_fresh {text pattern v : Value} (h : toDate text pattern = .ok v) : v.IsFresh := by
  rw [toDate] at h
  split at h
  · obtain rfl := Except.ok.inj h
    rfl
  · cases h

theorem members_honest : ∀ x ∈ (members : List (Member m)), x.Honest "system" := by
  have hboolean : ∀ b name, name ∈ variableNames → name ≠ "system.null" →
      (Value.boolean b).HeldBy name := fun b _ => (Value.isFresh_of (.boolean b)).heldBy
  have hnull : Value.null.HeldBy "system.null" := ⟨by decide, rfl⟩
  have hclock : (Member.producer "sysdate"
      (do pure (.date (← ExceptT.lift Console.now))) : Member m).Honest "system" :=
    gives_lift_bind _ fun _ => gives_pure ((Value.isFresh_of _).heldBy (by decide) (by decide))
  have hcomparison : ∀ symbol test, (comparison symbol test : Member m).Honest "system" :=
    fun _ _ => Member.honest_operator fun _ _ => rfl
  have hconnective : ∀ symbol f, (connective symbol f : Member m).Honest "system" :=
    fun _ _ => Member.honest_operator fun _ _ => rfl
  have hnot : (Member.method "not" ⟨[.boolean], none⟩
      (.unary fun x => pure (.boolean (!x.toBoolean))) : Member m).Honest "system" :=
    Member.honest_unary fun x => gives_pure ((Value.isFresh_of _).resultOf (by decide) [x])
  have hdate : (Member.method "toDate" ⟨[.string, .string], none⟩
      (.binary fun x y => ExceptT.mk (pure (toDate x y))) : Member m).Honest "system" :=
    Member.honest_binary fun x y => gives_ofExcept fun v hv =>
      (toDate_fresh hv).resultOf (by decide) [x, y]
  simp only [members, List.forall_mem_cons]
  exact ⟨hboolean true _ (by decide) (by decide), hboolean false _ (by decide) (by decide), hnull,
    hclock, hcomparison _ _, hcomparison _ _, hcomparison _ _, hcomparison _ _, hcomparison _ _,
    hcomparison _ _, hconnective _ _, hconnective _ _, printer_honest (by decide) _,
    printer_honest (by decide) _, hnot, hdate, List.forall_mem_nil _⟩

end BaseLibrary

namespace ArithmeticLibrary

theorem plus_fresh (x y : Value) : (plus x y).IsFresh := by
  rw [plus]
  split <;> rfl

theorem members_honest : ∀ x ∈ (members : List (Member m)), x.Honest "math" := by
  have hplus : (Member.operator "+" .any .any
      (.binary fun x y => pure (plus x y)) : Member m).Honest "math" :=
    Member.honest_operator plus_fresh
  have harithmetic : ∀ symbol f, (arithmetic symbol f : Member m).Honest "math" :=
    fun _ _ => Member.honest_operator fun _ _ => rfl
  have habs : (Member.method "abs" ⟨[.double], none⟩
      (.unary fun x => pure (.double x.toDouble.abs)) : Member m).Honest "math" :=
    Member.honest_unary fun x => gives_pure ((Value.isFresh_of _).resultOf (by decide) [x])
  simp only [members, List.forall_mem_cons]
  exact ⟨hplus, harithmetic _ _, harithmetic _ _, harithmetic _ _, habs, List.forall_mem_nil _⟩

end ArithmeticLibrary

/-! ## Libraries -/

namespace Table

structure Honest (library : String) (t : Table m) : Prop where
  operate : ∀ symbol x y, ∀ action ∈ t.operate symbol x y, Gives Value.IsFresh action
  call : ∀ name arguments, ∀ action ∈ t.call name arguments,
    Gives (Value.ResultOf (library ++ "." ++ name) arguments) action
  read : ∀ name, ∀ action ∈ t.read name, Gives (Value.HeldBy (library ++ "." ++ name)) action

theorem honest_ofMembers {library : String} {members : List (Member m)}
    (h : ∀ x ∈ members, x.Honest library) : (ofMembers members).Honest library where
  operate symbol x y action haction := by
    obtain ⟨_, left, right, handler, hmember, rfl⟩ := operate_cases haction
    exact h _ hmember (left.convert x) (right.convert y)
  call name arguments action haction := by
    obtain ⟨s, handler, hmember, hfits, rfl⟩ | ⟨other, hmember, rfl⟩ := call_cases haction
    · exact h _ hmember arguments hfits
    · exact (h _ hmember).elim
  read name action haction := by
    obtain ⟨value, hmember, rfl⟩ | hmember | ⟨other, hmember, rfl⟩ := read_cases haction
    · exact gives_pure (h _ hmember)
    · exact h _ hmember
    · exact (h _ hmember).elim

end Table

end Formulary

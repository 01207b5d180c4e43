import Formulary.Library.Base
import Formulary.Proofs.Calculator.Progress
import Formulary.Proofs.Library.Members

/-!
# Dispatch within bounds

A handler gets as many values as its signature takes, so that a handler that asks for no more never
misses one.  All handlers of the system and math libraries are like that, and so no expression can
fail because an argument is missing.

* `Action.InBounds`: actions that never miss an argument.
* `Member.InBounds`: members that miss none of the arguments that they declare.
* `BaseLibrary.members_inBounds`, `ArithmeticLibrary.members_inBounds`: the members of both
  libraries.
* `Table.inBounds_ofMembers`: every use of a library of such members.
* `Calculator.valueOf_inBounds`: every expression, with such libraries.
* `Table.dispatch_exact`: what a library does with each use, and that it is within bounds.
-/

namespace Formulary

open Calculator

variable {m : Type → Type} [Monad m] [LawfulMonad m]

/-! ## Actions -/

/-- An action does not fail because an argument is missing: all its errors are others. -/
def Action.InBounds (action : Action m) : Prop :=
  ∃ y : ExceptT { e : LibraryError // ∀ place, e ≠ .missingArgument place } m Value,
    action = y.adapt Subtype.val

namespace Action

theorem adapt_lift {ε ε' α : Type} (f : ε → ε') (x : m α) :
    (ExceptT.lift x : ExceptT ε m α).adapt f = ExceptT.lift x := by
  apply ExceptT.ext
  simp [Except.mapError, ExceptT.run_adapt]

theorem inBounds_pure (v : Value) : InBounds (pure v : Action m) := ⟨pure v, (adapt_pure _ v).symm⟩

theorem inBounds_ofExcept {r : Except LibraryError Value}
    (h : ∀ place, r ≠ .error (.missingArgument place)) :
    InBounds (ExceptT.mk (pure r) : Action m) := by
  cases r with
  | ok v => exact inBounds_pure v
  | error e =>
    refine ⟨throw ⟨e, fun place he => h place (congrArg _ he)⟩, ExceptT.ext ?_⟩
    simp [Except.mapError]

theorem inBounds_lift {α : Type} (x : m α) {f : α → Action m} (h : ∀ a, InBounds (f a)) :
    InBounds (ExceptT.lift x >>= f) := by
  choose g hg using h
  refine ⟨ExceptT.lift x >>= g, ?_⟩
  rw [adapt_bind, adapt_lift]
  congr 1
  exact funext hg

end Action

/-! ## Handlers -/

namespace Handler

theorem unary_apply (f : Value → Action m) (x : Value) (fixed : Nat) :
    unary f ⟨[x], fixed⟩ = f x := by
  simp [unary, argument]

theorem binary_apply (f : Value → Value → Action m) (x y : Value) (fixed : Nat) :
    binary f ⟨[x, y], fixed⟩ = f x y := by
  simp [binary, argument]

theorem unary_inBounds {f : Value → Action m} (h : ∀ x, (f x).InBounds) {a : Arguments}
    (ha : a.values.length = 1) : Action.InBounds (unary f a) := by
  obtain ⟨values, fixed⟩ := a
  obtain ⟨x, rfl⟩ := List.length_eq_one_iff.mp ha
  rw [unary_apply]
  exact h x

theorem binary_inBounds {f : Value → Value → Action m} (h : ∀ x y, (f x y).InBounds)
    {a : Arguments} (ha : a.values.length = 2) : Action.InBounds (binary f a) := by
  obtain ⟨values, fixed⟩ := a
  obtain ⟨x, y, rfl⟩ := List.length_eq_two.mp ha
  rw [binary_apply]
  exact h x y

end Handler

/-! ## Members -/

/-- A member that gets as many arguments as it declares does not miss any of them. -/
def Member.InBounds : Member m → Prop
  | .operator _ _ _ handler =>
    ∀ a : Arguments, a.values.length = 2 → Action.InBounds (handler a)
  | .method _ signature handler =>
    ∀ a : Arguments, signature.fits a.values.length → Action.InBounds (handler a)
  | .constant _ _ => True
  | .producer _ read => read.InBounds
  | .otherMethods call => ∀ name arguments, (call name arguments).InBounds
  | .otherVariables read => ∀ name, (read name).InBounds

namespace BaseLibrary

theorem comparison_inBounds (symbol : String) (test : Option Ordering → Bool) :
    (comparison symbol test : Member m).InBounds := fun _ ha =>
  Handler.binary_inBounds (fun _ _ => Action.inBounds_pure _) ha

theorem connective_inBounds (symbol : String) (f : Bool → Bool → Bool) :
    (connective symbol f : Member m).InBounds := fun _ ha =>
  Handler.binary_inBounds (fun _ _ => Action.inBounds_pure _) ha

theorem printer_inBounds [Console m] (name : String) (channel : Channel) :
    (printer name channel : Member m).InBounds := fun _ ha =>
  Handler.unary_inBounds (fun _ => Action.inBounds_lift _ fun _ => Action.inBounds_pure _)
    (of_decide_eq_true ha)

theorem toDate_ne_missing (text pattern : Value) (place : Nat) :
    toDate text pattern ≠ .error (.missingArgument place) := by
  rw [toDate]
  split
  · exact nofun
  · exact nofun

theorem members_inBounds [Console m] : ∀ x ∈ (members : List (Member m)), x.InBounds := by
  have hclock : (Member.producer "sysdate"
      (do pure (.date (← ExceptT.lift Console.now))) : Member m).InBounds :=
    Action.inBounds_lift _ fun _ => Action.inBounds_pure _
  have hnot : (Member.method "not" ⟨[.boolean], none⟩
      (.unary fun x => pure (.boolean (!x.toBoolean))) : Member m).InBounds := fun _ ha =>
    Handler.unary_inBounds (fun _ => Action.inBounds_pure _) (of_decide_eq_true ha)
  have hdate : (Member.method "toDate" ⟨[.string, .string], none⟩
      (.binary fun x y => ExceptT.mk (pure (toDate x y))) : Member m).InBounds := fun _ ha =>
    Handler.binary_inBounds (fun x y => Action.inBounds_ofExcept (toDate_ne_missing x y))
      (of_decide_eq_true ha)
  simp only [members, List.forall_mem_cons]
  exact ⟨trivial, trivial, trivial, hclock, comparison_inBounds _ _, comparison_inBounds _ _,
    comparison_inBounds _ _, comparison_inBounds _ _, comparison_inBounds _ _,
    comparison_inBounds _ _, connective_inBounds _ _, connective_inBounds _ _,
    printer_inBounds _ _, printer_inBounds _ _, hnot, hdate, List.forall_mem_nil _⟩

end BaseLibrary

namespace ArithmeticLibrary

theorem arithmetic_inBounds (symbol : String) (f : Float → Float → Float) :
    (arithmetic symbol f : Member m).InBounds := fun _ ha =>
  Handler.binary_inBounds (fun _ _ => Action.inBounds_pure _) ha

theorem members_inBounds : ∀ x ∈ (members : List (Member m)), x.InBounds := by
  have hplus : (Member.operator "+" .any .any
      (.binary fun x y => pure (plus x y)) : Member m).InBounds := fun _ ha =>
    Handler.binary_inBounds (fun _ _ => Action.inBounds_pure _) ha
  have habs : (Member.method "abs" ⟨[.double], none⟩
      (.unary fun x => pure (.double x.toDouble.abs)) : Member m).InBounds := fun _ ha =>
    Handler.unary_inBounds (fun _ => Action.inBounds_pure _) (of_decide_eq_true ha)
  simp only [members, List.forall_mem_cons]
  exact ⟨hplus, arithmetic_inBounds _ _, arithmetic_inBounds _ _, arithmetic_inBounds _ _, habs,
    List.forall_mem_nil _⟩

end ArithmeticLibrary

/-! ## Libraries -/

namespace Table

structure InBounds (t : Table m) : Prop where
  operate : ∀ symbol x y, ∀ action ∈ t.operate symbol x y, Action.InBounds action
  call : ∀ name arguments, ∀ action ∈ t.call name arguments, Action.InBounds action
  read : ∀ name, ∀ action ∈ t.read name, Action.InBounds action

theorem inBounds_ofMembers {members : List (Member m)} (h : ∀ x ∈ members, x.InBounds) :
    (ofMembers members).InBounds where
  operate symbol x y action haction := by
    obtain ⟨_, _, _, handler, hmember, rfl⟩ := operate_cases haction
    exact h _ hmember _ rfl
  call name arguments action haction := by
    obtain ⟨s, handler, hmember, hfits, rfl⟩ | ⟨other, hmember, rfl⟩ := call_cases haction
    · rw [← s.length_convert arguments] at hfits
      exact h _ hmember _ hfits
    · exact h _ hmember name arguments
  read name action haction := by
    obtain ⟨value, -, rfl⟩ | hmember | ⟨other, hmember, rfl⟩ := read_cases haction
    · exact Action.inBounds_pure value
    · exact h _ hmember
    · exact h _ hmember name

end Table

/-! ## Expressions -/

def EvalError.InBounds (e : EvalError) : Prop :=
  ∀ library kind name place, e.rootCause ≠ .memberFailed library kind name (.missingArgument place)

theorem EvalError.InBounds.withSource {e : EvalError} (h : e.InBounds) (source : NamedText) :
    (e.withSource source).InBounds := by
  cases e <;> exact h

namespace Calculator

variable {c : Calculator m}

theorem raises_invoke_inBounds {library : String} {kind : MemberSort} {name : String}
    {action : Option (Action m)} (h : ∀ a ∈ action, Action.InBounds a) :
    Raises EvalError.InBounds (invoke library kind name action) := by
  cases action with
  | none => exact raises_throw fun _ _ _ _ h => by cases h
  | some action =>
    obtain ⟨y, rfl⟩ := h action rfl
    rw [invoke, adapt_adapt]
    refine raises_adapt (fun e _ _ _ place he => ?_) y
    exact e.property place (EvalError.memberFailed.inj he).2.2.2

def InBounds (c : Calculator m) : Prop := ∀ entry ∈ c.libraries, entry.2.InBounds

omit [Monad m] [LawfulMonad m] in
theorem mem_libraries {name : String} {t : Table m} (h : c.library? name = some t) :
    (name, t) ∈ c.libraries := by
  obtain ⟨before, after, hlibraries, -⟩ := List.lookup_eq_some_iff.mp h
  simp [hlibraries]

theorem raises_theLibrary_bind (hc : c.InBounds) (name : String) {f : Table m → Evaluation m Value}
    (h : ∀ t, t.InBounds → Raises EvalError.InBounds (f t)) :
    Raises EvalError.InBounds (c.theLibrary name >>= f) := by
  rw [theLibrary]
  split
  · next t ht =>
    rw [pure_bind]
    exact h t (hc (name, t) (mem_libraries ht))
  · rw [throw_bind]
    exact raises_throw fun _ _ _ _ h => by cases h

theorem raises_readVariable_inBounds (hc : c.InBounds) (text : String) :
    Raises EvalError.InBounds (c.readVariable text) :=
  raises_theLibrary_bind hc _ fun _ ht =>
    raises_bind (raises_invoke_inBounds (ht.read _)) fun _ => raises_pure _

theorem raises_applyOperator_inBounds (hc : c.InBounds) (symbol : String) (left right : Value) :
    Raises EvalError.InBounds (c.applyOperator symbol left right) :=
  raises_theLibrary_bind hc _ fun _ ht => raises_invoke_inBounds (ht.operate _ _ _)

theorem raises_callMethod_inBounds (hc : c.InBounds) (text : String) (arguments : List Value) :
    Raises EvalError.InBounds (c.callMethod text arguments) :=
  raises_theLibrary_bind hc _ fun _ ht => raises_invoke_inBounds (ht.call _ _)

variable {tree : Tree} {inside : ElementId → Evaluation m Value}

theorem raises_step_inBounds (hc : c.InBounds)
    (hinside : ∀ id, Raises EvalError.InBounds (inside id)) (id : ElementId) (stack : List Value) :
    Raises EvalError.InBounds (c.step tree inside id stack) := by
  cases hkind : (tree.element id).kind with
  | number | string =>
    simp only [step, hkind]
    exact raises_pure _
  | identifier =>
    simp only [step, hkind]
    exact raises_bind (raises_readVariable_inBounds hc _) fun _ => raises_pure _
  | operator =>
    rcases stack with _ | ⟨right, _ | ⟨left, stack⟩⟩ <;> simp only [step, hkind]
    · exact raises_throw fun _ _ _ _ h => by cases h
    · exact raises_throw fun _ _ _ _ h => by cases h
    · exact raises_bind (raises_applyOperator_inBounds hc _ _ _) fun _ => raises_pure _
  | function =>
    simp only [step, hkind]
    exact raises_bind (raises_mapM fun a _ => hinside a) fun values =>
      raises_bind (raises_callMethod_inBounds hc _ values) fun _ => raises_pure _
  | node =>
    simp only [step, hkind]
    exact raises_bind (hinside id) fun _ => raises_pure _
  | symbol | argument =>
    simp only [step, hkind]
    exact raises_throw fun _ _ _ _ h => by cases h

theorem raises_evaluate_inBounds (hc : c.InBounds) (room : Nat) (id : ElementId) :
    Raises EvalError.InBounds (c.evaluate tree room id) := by
  induction room generalizing id with
  | zero => exact raises_throw fun _ _ _ _ h => by cases h
  | succ room ih =>
    refine c.raises_run (fun _ _ _ _ _ h => by cases h) (fun id _ stack => ?_) []
    exact (raises_step_inBounds hc ih id stack).adapt fun e he => he

/-- The evaluation of an expression never misses an argument of a handler. -/
theorem valueOf_inBounds (hc : c.InBounds) (tree : Tree) (id : EntityId) :
    Raises EvalError.InBounds (c.valueOf tree id) := by
  rw [valueOf]
  split
  · exact (raises_evaluate_inBounds hc _ _).adapt fun e he => he.withSource _
  · exact raises_throw fun _ _ _ _ h => by cases h

end Calculator

/-! ## The result -/

/-- A world that keeps the lines that are printed, and in which no time passes. -/
abbrev Transcript := StateM (List (Channel × String))

instance : Console Transcript where
  printLine channel line := modify (· ++ [(channel, line)])
  now := pure Instant.epoch

namespace Table

/-- A library does with each use what the first member that fits it does, on arguments that fit its
signature.  So no handler of the system and math libraries misses an argument, no library of such
members does, and no expression fails for this reason, whatever the libraries are called and
whichever operators they are given. -/
theorem dispatch_exact [Console m] (members : List (Member m)) :
    Dispatches members ∧
      (∀ x ∈ (BaseLibrary.members ++ ArithmeticLibrary.members : List (Member m)), x.InBounds) ∧
      ((∀ x ∈ members, x.InBounds) → (ofMembers members).InBounds) ∧
      ∀ c : Calculator m, (∀ entry ∈ c.libraries, ∃ known, entry.2 = ofMembers known ∧
        ∀ x ∈ known, x.InBounds) → ∀ tree id, Raises EvalError.InBounds (c.valueOf tree id) := by
  refine ⟨dispatches members, ?_, inBounds_ofMembers, fun c hc => valueOf_inBounds ?_⟩
  · rw [List.forall_mem_append]
    exact ⟨BaseLibrary.members_inBounds, ArithmeticLibrary.members_inBounds⟩
  · intro entry hentry
    obtain ⟨known, heq, hknown⟩ := hc entry hentry
    exact heq ▸ inBounds_ofMembers hknown

def shower : Handler Transcript := fun a =>
  pure (.string (",".intercalate (a.values.map Value.toText)))

/-- A method for one argument, and one for any further ones too. -/
def overloads : List (Member Transcript) :=
  [.otherMethods fun name _ => pure (.string name), .constant "f" .null,
    .method "f" ⟨[.long, .long], none⟩ shower, .method "f" ⟨[.long], some .string⟩ shower,
    .method "f" ⟨[.any], none⟩ (Handler.unary pure)]

/-- The first argument is converted to the declared parameter, and the others to the last one. -/
theorem dispatch_exact_overloads :
    FirstIn (Member.Takes "f" 3) (.method "f" ⟨[.long], some .string⟩ shower) overloads ∧
      (ofMembers overloads).call "f" [.boolean true, .boolean true, .long 5] =
        some (shower ⟨[.long 1, .string "true", .string "5"], 1⟩) ∧
      (ofMembers overloads).call "f" [] = some (pure (.string "f")) ∧
      ∀ tree id, Raises EvalError.InBounds ((Calculator.standard : Calculator Transcript).valueOf
        tree id) := by
  have hfirst : FirstIn (Member.Takes "f" 3) (.method "f" ⟨[.long], some .string⟩ shower)
      overloads :=
    ⟨⟨rfl, rfl⟩, overloads.take 3, overloads.drop 4, rfl,
      by simp [overloads, Member.Takes, Signature.fits, Signature.arity]⟩
  have hnone : ∀ x ∈ overloads, ¬x.Takes "f" ([] : List Value).length := by
    simp [overloads, Member.Takes, Signature.fits, Signature.arity]
  have hlast : LastIn Member.IsOtherMethods (.otherMethods fun name _ => pure (.string name))
      overloads :=
    ⟨trivial, [], overloads.tail, rfl, by simp [overloads, Member.IsOtherMethods]⟩
  have hbinds : Signature.Binds ⟨[.long], some .string⟩ [.boolean true, .boolean true, .long 5]
      ⟨[.long 1, .string "true", .string "5"], 1⟩ := Signature.binds_convert rfl
  obtain ⟨hdispatches, hmembers, -, hvalues⟩ := dispatch_exact overloads
  obtain ⟨a, ha, hcall⟩ : ∃ a, Signature.Binds ⟨[.long], some .string⟩
      [.boolean true, .boolean true, .long 5] a ∧ (ofMembers overloads).call "f"
        [.boolean true, .boolean true, .long 5] = some (shower a) := hdispatches.method hfirst
  obtain rfl := ha.unique hbinds
  refine ⟨hfirst, hcall, hdispatches.otherMethod [] hnone hlast, hvalues .standard ?_⟩
  rw [List.forall_mem_append] at hmembers
  rintro entry hentry
  simp only [standard, List.mem_cons, List.not_mem_nil, or_false] at hentry
  rcases hentry with rfl | rfl
  · exact ⟨_, rfl, hmembers.2⟩
  · exact ⟨_, rfl, hmembers.1⟩

end Table

end Formulary

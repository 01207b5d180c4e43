import Formulary.Library.Table

/-!
# The members of a library

A library holds its members in three rows, one for each sort that is looked up, and each row has the
members of its sort in the order of their registration.  So the first member that fits a use is the
first one that was registered, and later ones do not matter to it.

* `Member.operator?`, `Member.method?`, `Member.var?`: what a member adds to each row.
* `Table.operators_ofMembers` and its like: the rows of a library.
* `Member.Serves`, `Member.Takes`, `Member.Names`: the members that fit a use.
* `FirstIn`, `LastIn`: the first and the last member of a sort.
* `Signature.Binds`: the arguments that a method receives.
* `Table.Dispatches`, `Table.dispatches`: what a library does with each use.
-/

namespace Formulary

variable {m : Type → Type}

/-! ## Rows -/

namespace Member

def operator? : Member m → Option (Table.Operator m)
  | .operator symbol left right handler => some ⟨symbol, left, right, handler⟩
  | _ => none

def method? : Member m → Option (Table.Method m)
  | .method name signature handler => some ⟨name, signature, handler⟩
  | _ => none

def var? : Member m → Option (Table.Variable m)
  | .constant name value => some ⟨name, .constant value⟩
  | .producer name read => some ⟨name, .producer read⟩
  | _ => none

def otherMethods? : Member m → Option (String → List Value → Action m)
  | .otherMethods call => some call
  | _ => none

def otherVariables? : Member m → Option (String → Action m)
  | .otherVariables read => some read
  | _ => none

variable {x : Member m}

theorem operator?_eq_some_iff {e : Table.Operator m} :
    x.operator? = some e ↔ x = .operator e.symbol e.left e.right e.handler := by
  cases x <;> cases e <;> simp [operator?]

theorem method?_eq_some_iff {e : Table.Method m} :
    x.method? = some e ↔ x = .method e.name e.signature e.handler := by
  cases x <;> cases e <;> simp [method?]

theorem var?_eq_some_iff {name : String} {origin : Table.Origin m} :
    x.var? = some ⟨name, origin⟩ ↔
      x = match origin with
        | .constant value => .constant name value
        | .producer read => .producer name read := by
  cases x <;> cases origin <;> simp [var?]

theorem otherMethods?_eq_some_iff {call : String → List Value → Action m} :
    x.otherMethods? = some call ↔ x = .otherMethods call := by
  cases x <;> simp [otherMethods?]

theorem otherVariables?_eq_some_iff {read : String → Action m} :
    x.otherVariables? = some read ↔ x = .otherVariables read := by
  cases x <;> simp [otherVariables?]

end Member

theorem filterMap_cons_toList {α β : Type} (f : α → Option β) (x : α) (xs : List α) :
    (x :: xs).filterMap f = (f x).toList ++ xs.filterMap f := by
  rw [List.filterMap_cons]
  cases f x <;> rfl

namespace Table

theorem register_eq (t : Table m) (x : Member m) : t.register x =
    ⟨t.operators ++ x.operator?.toList, t.methods ++ x.method?.toList,
      t.vars ++ x.var?.toList, x.otherMethods?.or t.otherMethods,
      x.otherVariables?.or t.otherVariables⟩ := by
  cases x <;> simp [register, Member.operator?, Member.method?, Member.var?,
    Member.otherMethods?, Member.otherVariables?]

theorem registerAll_eq (t : Table m) (members : List (Member m)) : t.registerAll members =
    ⟨t.operators ++ members.filterMap Member.operator?,
      t.methods ++ members.filterMap Member.method?,
      t.vars ++ members.filterMap Member.var?,
      (members.reverse.findSome? Member.otherMethods?).or t.otherMethods,
      (members.reverse.findSome? Member.otherVariables?).or t.otherVariables⟩ := by
  induction members generalizing t with
  | nil => simp [registerAll]
  | cons x members ih =>
    have hregister : t.registerAll (x :: members) = (t.register x).registerAll members := rfl
    rw [hregister, ih, register_eq]
    simp [filterMap_cons_toList, List.findSome?_append, Option.or_assoc]

/-- The rows of a library hold its members in order; of several defaults the last one counts. -/
theorem ofMembers_eq (members : List (Member m)) : ofMembers members =
    ⟨members.filterMap Member.operator?, members.filterMap Member.method?,
      members.filterMap Member.var?, members.reverse.findSome? Member.otherMethods?,
      members.reverse.findSome? Member.otherVariables?⟩ := by
  rw [ofMembers, registerAll_eq]
  simp [empty]

end Table

/-! ## The first and the last of a sort -/

section Rows

variable {α β : Type} {P : α → Prop} {x : α} {xs : List α}

/-- A member of a list has a property, and none before it has. -/
def FirstIn (P : α → Prop) (x : α) (xs : List α) : Prop :=
  P x ∧ ∃ before after, xs = before ++ x :: after ∧ ∀ y ∈ before, ¬P y

/-- A member of a list has a property, and none after it has. -/
def LastIn (P : α → Prop) (x : α) (xs : List α) : Prop :=
  P x ∧ ∃ before after, xs = before ++ x :: after ∧ ∀ y ∈ after, ¬P y

variable {f : α → Option β} {q : β → Bool}

theorem find?_of_firstIn (hP : ∀ y, P y ↔ (f y).any q) {b : β} (hb : f x = some b)
    (h : FirstIn P x xs) : (xs.filterMap f).find? q = some b := by
  obtain ⟨hx, before, after, rfl, hbefore⟩ := h
  have hq : q b := by simpa [hb] using (hP x).mp hx
  rw [List.filterMap_append, List.find?_append, List.filterMap_cons_some hb, List.find?_cons, hq,
    List.find?_eq_none.mpr, Option.none_or]
  intro c hc hqc
  obtain ⟨y, hy, hyc⟩ := List.mem_filterMap.mp hc
  exact hbefore y hy ((hP y).mpr (by simpa [hyc] using hqc))

theorem find?_eq_none_iff (hP : ∀ y, P y ↔ (f y).any q) :
    (xs.filterMap f).find? q = none ↔ ∀ y ∈ xs, ¬P y := by
  simp only [List.find?_eq_none, List.mem_filterMap, hP, Option.any_eq_true]
  exact ⟨fun h y hy ⟨b, hb, hq⟩ => h b ⟨y, hy, hb⟩ hq,
    fun h b ⟨y, hy, hb⟩ hq => h y hy ⟨b, hb, hq⟩⟩

theorem exists_find?_append (hP : ∀ y, P y ↔ (f y).any q) (h : ∃ y ∈ xs, P y) (ys : List α) :
    ∃ b, (xs.filterMap f).find? q = some b ∧ ((xs ++ ys).filterMap f).find? q = some b := by
  obtain ⟨y, hy, hPy⟩ := h
  have hfound : (xs.filterMap f).find? q ≠ none := fun hnone =>
    (find?_eq_none_iff hP).mp hnone y hy hPy
  obtain ⟨b, hb⟩ := Option.ne_none_iff_exists'.mp hfound
  exact ⟨b, hb, by rw [List.filterMap_append, List.find?_append, hb, Option.some_or]⟩

theorem findSome?_of_lastIn (hP : ∀ y, P y ↔ (f y).isSome) {b : β} (hb : f x = some b)
    (h : LastIn P x xs) : xs.reverse.findSome? f = some b := by
  obtain ⟨-, before, after, rfl, hafter⟩ := h
  have hnone : after.reverse.findSome? f = none := by
    rw [List.findSome?_eq_none_iff]
    intro y hy
    simpa [hP] using hafter y (List.mem_reverse.mp hy)
  rw [List.reverse_append, List.reverse_cons, List.append_assoc, List.findSome?_append, hnone,
    Option.none_or, List.singleton_append, List.findSome?_cons, hb]

theorem findSome?_eq_none_iff (hP : ∀ y, P y ↔ (f y).isSome) :
    xs.reverse.findSome? f = none ↔ ∀ y ∈ xs, ¬P y := by
  simp [List.findSome?_eq_none_iff, hP]

end Rows

/-! ## Members that fit a use -/

namespace Member

def Serves (symbol : String) : Member m → Prop
  | .operator symbol' _ _ _ => symbol' = symbol
  | _ => False

/-- A member is a method of a name that takes so many arguments. -/
def Takes (name : String) (count : Nat) : Member m → Prop
  | .method name' signature _ => name' = name ∧ signature.fits count
  | _ => False

def Names (name : String) : Member m → Prop
  | .constant name' _ | .producer name' _ => name' = name
  | _ => False

def IsOtherMethods : Member m → Prop
  | .otherMethods _ => True
  | _ => False

def IsOtherVariables : Member m → Prop
  | .otherVariables _ => True
  | _ => False

theorem serves_iff (symbol : String) (x : Member m) :
    x.Serves symbol ↔ x.operator?.any fun e => e.symbol == symbol := by
  cases x <;> simp [Serves, operator?]

theorem takes_iff (name : String) (count : Nat) (x : Member m) :
    x.Takes name count ↔ x.method?.any fun e => e.name == name && e.signature.fits count := by
  cases x <;> simp [Takes, method?]

theorem names_iff (name : String) (x : Member m) :
    x.Names name ↔ x.var?.any fun e => e.name == name := by
  cases x <;> simp [Names, var?]

theorem isOtherMethods_iff (x : Member m) : x.IsOtherMethods ↔ x.otherMethods?.isSome := by
  cases x <;> simp [IsOtherMethods, otherMethods?]

theorem isOtherVariables_iff (x : Member m) : x.IsOtherVariables ↔ x.otherVariables?.isSome := by
  cases x <;> simp [IsOtherVariables, otherVariables?]

end Member

/-! ## Arguments -/

namespace Signature

variable {s : Signature} {arguments : List Value}

/-- What a method receives for some arguments: one value for each of them, in order, those of the
declared parameters converted to their parameters, and all further ones to the last parameter. -/
structure Binds (s : Signature) (arguments : List Value) (a : Arguments) : Prop where
  length : a.values.length = arguments.length
  fixed : a.fixed = s.arity
  fixed_le : a.fixed ≤ a.values.length
  declared : ∀ {i : Nat} {p : Parameter} {v : Value}, s.fixed[i]? = some p →
    arguments[i]? = some v → a.values[i]? = some (p.convert v)
  rest : a.rest = s.rest.elim [] fun p => (arguments.drop s.arity).map p.convert

theorem fits_iff {count : Nat} :
    s.fits count ↔ s.arity ≤ count ∧ (s.rest = none → count = s.arity) := by
  rw [fits]
  cases s.rest with
  | none => simpa using fun h => (Nat.le_of_eq h.symm)
  | some p => simp

theorem getElem?_convert (s : Signature) (arguments : List Value) (i : Nat) :
    (s.convert arguments)[i]? = arguments[i]?.map (s.parameter i).convert := by
  simp [convert, Function.comp_def]

theorem length_convert (s : Signature) (arguments : List Value) :
    (s.convert arguments).length = arguments.length := by
  simp [convert]

theorem parameter_of_declared {i : Nat} {p : Parameter} (h : s.fixed[i]? = some p) :
    s.parameter i = p := by
  rw [parameter, List.getD_eq_getElem?_getD, h, Option.getD_some]

theorem parameter_of_le {i : Nat} (h : s.arity ≤ i) : s.parameter i = s.rest.getD .any := by
  rw [parameter, List.getD_eq_getElem?_getD, List.getElem?_eq_none h, Option.getD_none]

theorem binds_convert (h : s.fits arguments.length) :
    s.Binds arguments ⟨s.convert arguments, s.arity⟩ where
  length := s.length_convert arguments
  fixed := rfl
  fixed_le := (s.length_convert arguments).symm ▸ (fits_iff.mp h).1
  declared hp hv := by
    rw [getElem?_convert, hv, parameter_of_declared hp, Option.map_some]
  rest := by
    obtain ⟨-, hexact⟩ := fits_iff.mp h
    rw [Arguments.rest]
    cases hrest : s.rest with
    | none =>
      exact List.drop_eq_nil_of_le
        (Nat.le_of_eq ((s.length_convert arguments).trans (hexact hrest)))
    | some p =>
      refine List.ext_getElem? fun i => ?_
      rw [List.getElem?_drop, getElem?_convert, parameter_of_le (Nat.le_add_right _ i), hrest,
        Option.elim_some, List.getElem?_map, List.getElem?_drop, Option.getD_some]

/-- A signature leaves no choice. -/
theorem Binds.unique {a a' : Arguments} (h : s.Binds arguments a) (h' : s.Binds arguments a') :
    a = a' := by
  have hvalues : a.values = a'.values := by
    refine List.ext_getElem? fun i => ?_
    rcases Nat.lt_or_ge i s.arity with hdeclared | hfurther
    · have hi : i < arguments.length := by
        have hle := h.fixed_le
        rw [h.fixed, h.length] at hle
        exact Nat.lt_of_lt_of_le hdeclared hle
      have hp := List.getElem?_eq_getElem hdeclared
      have hv := List.getElem?_eq_getElem hi
      rw [h.declared hp hv, h'.declared hp hv]
    · have hrest : a.values.drop s.arity = a'.values.drop s.arity := by
        have heq := h.rest.trans h'.rest.symm
        rwa [Arguments.rest, Arguments.rest, h.fixed, h'.fixed] at heq
      obtain ⟨j, rfl⟩ := Nat.exists_eq_add_of_le hfurther
      rw [← List.getElem?_drop, hrest, List.getElem?_drop]
  obtain ⟨values, fixed⟩ := a
  obtain ⟨values', fixed'⟩ := a'
  rw [Arguments.mk.injEq]
  exact ⟨hvalues, h.fixed.trans h'.fixed.symm⟩

end Signature

/-! ## Uses -/

namespace Table

/-- What the library of some members does with each use.  A use runs the first member that fits it,
and nothing else; the last default of the sort runs where no member fits; and a use that some member
fits is not changed by members that are registered later. -/
structure Dispatches [Monad m] (members : List (Member m)) : Prop where
  method : ∀ {name name' s handler arguments},
    FirstIn (Member.Takes name arguments.length) (.method name' s handler) members →
      ∃ a, s.Binds arguments a ∧ (ofMembers members).call name arguments = some (handler a)
  otherMethod : ∀ {name other} (arguments),
    (∀ x ∈ members, ¬x.Takes name arguments.length) →
    LastIn Member.IsOtherMethods (.otherMethods other) members →
      (ofMembers members).call name arguments = some (other name arguments)
  noMethod : ∀ name arguments, (ofMembers members).call name arguments = none ↔
    ∀ x ∈ members, ¬x.Takes name arguments.length ∧ ¬x.IsOtherMethods
  laterMethods : ∀ {name arguments} (later), (∃ x ∈ members, x.Takes name arguments.length) →
    (ofMembers (members ++ later)).call name arguments = (ofMembers members).call name arguments
  operator : ∀ {symbol symbol' left right handler} (x y),
    FirstIn (Member.Serves symbol) (.operator symbol' left right handler) members →
      (ofMembers members).operate symbol x y =
        some (handler ⟨[left.convert x, right.convert y], 2⟩)
  noOperator : ∀ symbol x y, (ofMembers members).operate symbol x y = none ↔
    ∀ e ∈ members, ¬e.Serves symbol
  laterOperators : ∀ {symbol} (x y later), (∃ e ∈ members, e.Serves symbol) →
    (ofMembers (members ++ later)).operate symbol x y = (ofMembers members).operate symbol x y
  constant : ∀ {name name' value}, FirstIn (Member.Names name) (.constant name' value) members →
    (ofMembers members).read name = some (pure value)
  producer : ∀ {name name' read}, FirstIn (Member.Names name) (.producer name' read) members →
    (ofMembers members).read name = some read
  otherVariable : ∀ {name other}, (∀ x ∈ members, ¬x.Names name) →
    LastIn Member.IsOtherVariables (.otherVariables other) members →
      (ofMembers members).read name = some (other name)
  noVariable : ∀ name, (ofMembers members).read name = none ↔
    ∀ x ∈ members, ¬x.Names name ∧ ¬x.IsOtherVariables
  laterVariables : ∀ {name} (later), (∃ x ∈ members, x.Names name) →
    (ofMembers (members ++ later)).read name = (ofMembers members).read name

variable {members : List (Member m)}

theorem methodNamed?_ofMembers (name : String) (count : Nat) :
    (ofMembers members).methodNamed? name count = (members.filterMap Member.method?).find?
      fun e => e.name == name && e.signature.fits count := by
  rw [ofMembers_eq]
  rfl

theorem operatorNamed?_ofMembers (symbol : String) : (ofMembers members).operatorNamed? symbol =
    (members.filterMap Member.operator?).find? fun e => e.symbol == symbol := by
  rw [ofMembers_eq]
  rfl

theorem variableNamed?_ofMembers (name : String) : (ofMembers members).variableNamed? name =
    (members.filterMap Member.var?).find? fun e => e.name == name := by
  rw [ofMembers_eq]
  rfl

theorem call_of_firstIn {name name' : String} {s : Signature} {handler : Handler m}
    {arguments : List Value}
    (h : FirstIn (Member.Takes name arguments.length) (.method name' s handler) members) :
    (ofMembers members).call name arguments = some (handler ⟨s.convert arguments, s.arity⟩) := by
  have hfound := find?_of_firstIn (Member.takes_iff name arguments.length) rfl h
  rw [call, methodNamed?_ofMembers, hfound]

theorem call_of_none {name : String} {arguments : List Value}
    (h : ∀ x ∈ members, ¬x.Takes name arguments.length) : (ofMembers members).call name arguments =
      (members.reverse.findSome? Member.otherMethods?).map fun other => other name arguments := by
  rw [call, methodNamed?_ofMembers,
    (find?_eq_none_iff (Member.takes_iff name arguments.length)).mpr h, ofMembers_eq]

theorem operate_of_firstIn {symbol symbol' : String} {left right : Parameter} {handler : Handler m}
    (h : FirstIn (Member.Serves symbol) (.operator symbol' left right handler) members)
    (x y : Value) : (ofMembers members).operate symbol x y =
      some (handler ⟨[left.convert x, right.convert y], 2⟩) := by
  have hfound := find?_of_firstIn (Member.serves_iff symbol) rfl h
  rw [operate, operatorNamed?_ofMembers, hfound, Option.map_some]

variable {action : Action m}

theorem operate_cases {symbol : String} {x y : Value}
    (h : (ofMembers members).operate symbol x y = some action) : ∃ symbol' left right handler,
      .operator symbol' left right handler ∈ members ∧
        action = handler ⟨[left.convert x, right.convert y], 2⟩ := by
  rw [operate, operatorNamed?_ofMembers, Option.map_eq_some_iff] at h
  obtain ⟨e, he, rfl⟩ := h
  obtain ⟨member, hmember, hrow⟩ := List.mem_filterMap.mp (List.mem_of_find?_eq_some he)
  exact ⟨_, _, _, _, Member.operator?_eq_some_iff.mp hrow ▸ hmember, rfl⟩

theorem call_cases {name : String} {arguments : List Value}
    (h : (ofMembers members).call name arguments = some action) :
    (∃ s handler, .method name s handler ∈ members ∧ s.fits arguments.length ∧
        action = handler ⟨s.convert arguments, s.arity⟩) ∨
      ∃ other, .otherMethods other ∈ members ∧ action = other name arguments := by
  rw [call, methodNamed?_ofMembers] at h
  split at h
  · next e he =>
    obtain ⟨member, hmember, hrow⟩ := List.mem_filterMap.mp (List.mem_of_find?_eq_some he)
    have hfound := List.find?_some he
    rw [Bool.and_eq_true, beq_iff_eq] at hfound
    obtain ⟨rfl, hfits⟩ := hfound
    exact .inl ⟨_, _, Member.method?_eq_some_iff.mp hrow ▸ hmember, hfits,
      (Option.some.inj h).symm⟩
  · rw [ofMembers_eq, Option.map_eq_some_iff] at h
    obtain ⟨other, hother, rfl⟩ := h
    obtain ⟨member, hmember, hrow⟩ := List.exists_of_findSome?_eq_some hother
    rw [Member.otherMethods?_eq_some_iff] at hrow
    exact .inr ⟨other, hrow ▸ List.mem_reverse.mp hmember, rfl⟩

theorem call_eq_none_iff {name : String} {arguments : List Value} :
    (ofMembers members).call name arguments = none ↔
      ∀ x ∈ members, ¬x.Takes name arguments.length ∧ ¬x.IsOtherMethods := by
  simp only [forall_and, ← findSome?_eq_none_iff Member.isOtherMethods_iff]
  constructor
  · intro h
    have hnone : ∀ x ∈ members, ¬x.Takes name arguments.length := by
      rw [← find?_eq_none_iff (Member.takes_iff name arguments.length), ← methodNamed?_ofMembers]
      rw [call] at h
      split at h
      · cases h
      · assumption
    rw [call_of_none hnone, Option.map_eq_none_iff] at h
    exact ⟨hnone, h⟩
  · rintro ⟨hnone, hother⟩
    rw [call_of_none hnone, hother, Option.map_none]

variable [Monad m]

theorem read_of_none {name : String} (h : ∀ x ∈ members, ¬x.Names name) :
    (ofMembers members).read name =
      (members.reverse.findSome? Member.otherVariables?).map fun other => other name := by
  rw [read, variableNamed?_ofMembers, (find?_eq_none_iff (Member.names_iff name)).mpr h,
    ofMembers_eq]

omit [Monad m] in
theorem exists_of_variableNamed? {name name' : String} {origin : Origin m}
    (h : (ofMembers members).variableNamed? name = some ⟨name', origin⟩) :
    ∃ x ∈ members, x.var? = some ⟨name, origin⟩ := by
  rw [variableNamed?_ofMembers] at h
  have hname := List.find?_some h
  rw [beq_iff_eq] at hname
  exact hname ▸ List.mem_filterMap.mp (List.mem_of_find?_eq_some h)

theorem read_cases {name : String} (h : (ofMembers members).read name = some action) :
    (∃ value, .constant name value ∈ members ∧ action = pure value) ∨
      .producer name action ∈ members ∨
      ∃ other, .otherVariables other ∈ members ∧ action = other name := by
  rw [read] at h
  split at h
  · next value he =>
    obtain ⟨x, hx, hrow⟩ := exists_of_variableNamed? he
    obtain rfl : x = .constant name value := Member.var?_eq_some_iff.mp hrow
    exact .inl ⟨value, hx, (Option.some.inj h).symm⟩
  · next read he =>
    obtain ⟨x, hx, hrow⟩ := exists_of_variableNamed? he
    obtain rfl : x = .producer name read := Member.var?_eq_some_iff.mp hrow
    exact .inr (.inl (Option.some.inj h ▸ hx))
  · rw [ofMembers_eq, Option.map_eq_some_iff] at h
    obtain ⟨other, hother, rfl⟩ := h
    obtain ⟨member, hmember, hrow⟩ := List.exists_of_findSome?_eq_some hother
    rw [Member.otherVariables?_eq_some_iff] at hrow
    exact .inr (.inr ⟨other, hrow ▸ List.mem_reverse.mp hmember, rfl⟩)

theorem read_eq_none_iff {name : String} : (ofMembers members).read name = none ↔
    ∀ x ∈ members, ¬x.Names name ∧ ¬x.IsOtherVariables := by
  simp only [forall_and, ← findSome?_eq_none_iff Member.isOtherVariables_iff]
  constructor
  · intro h
    have hnone : ∀ x ∈ members, ¬x.Names name := by
      rw [← find?_eq_none_iff (Member.names_iff name), ← variableNamed?_ofMembers]
      rw [read] at h
      split at h
      · cases h
      · cases h
      · assumption
    rw [read_of_none hnone, Option.map_eq_none_iff] at h
    exact ⟨hnone, h⟩
  · rintro ⟨hnone, hother⟩
    rw [read_of_none hnone, hother, Option.map_none]

theorem dispatches (members : List (Member m)) : Dispatches members where
  method h := ⟨_, Signature.binds_convert h.1.2, call_of_firstIn h⟩
  otherMethod arguments h hlast := by
    rw [call_of_none h, findSome?_of_lastIn Member.isOtherMethods_iff rfl hlast, Option.map_some]
  noMethod _ _ := call_eq_none_iff
  laterMethods {name arguments} later h := by
    obtain ⟨e, he, hlater⟩ :=
      exists_find?_append (Member.takes_iff name arguments.length) h later
    rw [call, call, methodNamed?_ofMembers, methodNamed?_ofMembers, he, hlater]
  operator x y h := operate_of_firstIn h x y
  noOperator symbol x y := by
    rw [operate, Option.map_eq_none_iff, operatorNamed?_ofMembers,
      find?_eq_none_iff (Member.serves_iff symbol)]
  laterOperators {symbol} x y later h := by
    obtain ⟨e, he, hlater⟩ := exists_find?_append (Member.serves_iff symbol) h later
    rw [operate, operate, operatorNamed?_ofMembers, operatorNamed?_ofMembers, he, hlater]
  constant {name name' value} h := by
    rw [read, variableNamed?_ofMembers, find?_of_firstIn (Member.names_iff name) rfl h]
  producer {name name' action} h := by
    rw [read, variableNamed?_ofMembers, find?_of_firstIn (Member.names_iff name) rfl h]
  otherVariable h hlast := by
    rw [read_of_none h, findSome?_of_lastIn Member.isOtherVariables_iff rfl hlast, Option.map_some]
  noVariable _ := read_eq_none_iff
  laterVariables {name} later h := by
    obtain ⟨⟨name', origin⟩, he, hlater⟩ := exists_find?_append (Member.names_iff name) h later
    rw [read, read, variableNamed?_ofMembers, variableNamed?_ofMembers, he, hlater]
    cases origin <;> rfl

end Table

end Formulary

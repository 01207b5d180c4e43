import Mathlib.Data.List.Induction
import Formulary.Proofs.Text.Basic
import Formulary.Proofs.Tree.Positions

/-!
# Paths

A path names an entity by the names on the way to it, with points between them.  The names of a text
may hold points as well, but a path is cut at every point: what a path leads to is reached by names
without points, and an entity with a point in a name on the way to it is reached by no path.

* `Tree.IsFirst`, `Tree.LeadsTo`: first matches, and chains of them from the root section on.
* `Tree.memberNames`, `Tree.memberPath`: the names on the way to an entity, and its path.
* `Tree.Visible`: entities that no other one hides.
* `Tree.find_iff_memberPath`: which entity a path leads to.
* `Tree.not_found_of_point`: an entity that its path does not lead to.
-/

namespace Formulary

namespace Tree

variable {tree : Tree} {s id : EntityId} {name path : String} {names : List String}

/-! ## Paths -/

theorem pathNames_ne_nil (path : String) : pathNames path ≠ [] :=
  mt List.map_eq_nil_iff.mp (split_ne_nil _ _)

theorem not_mem_of_mem_pathNames (h : name ∈ pathNames path) : '.' ∉ name.toList := by
  obtain ⟨piece, hpiece, rfl⟩ := List.mem_map.mp h
  rw [String.toList_ofList]
  exact not_mem_of_mem_split hpiece

theorem map_toList_pathNames (path : String) :
    (pathNames path).map String.toList = split '.' path.toList := by
  simp [pathNames]

/-- A path is made up of its names. -/
theorem intercalate_pathNames (path : String) : String.intercalate "." (pathNames path) = path := by
  rw [← String.toList_inj, String.toList_intercalate, map_toList_pathNames, split_eq_splitOn]
  exact List.intercalate_splitOn '.'

/-- Names without points are found again in the path that they make up. -/
theorem pathNames_intercalate (hne : names ≠ []) (h : ∀ name ∈ names, '.' ∉ name.toList) :
    pathNames (String.intercalate "." names) = names := by
  have hpieces : ∀ piece ∈ names.map String.toList, '.' ∉ piece := List.forall_mem_map.mpr h
  rw [pathNames, String.toList_intercalate, split_eq_splitOn,
    show (".".toList : List Char) = ['.'] from rfl,
    List.splitOn_intercalate '.' hpieces (mt List.map_eq_nil_iff.mp hne)]
  simp

/-! ## First matches -/

def IsFirst (tree : Tree) (s : EntityId) (name : String) (id : EntityId) : Prop :=
  ∃ title members before after, (tree.entity s).content = .sect title members ∧
    members.toList = before ++ id :: after ∧ (tree.entity id).name = some name ∧
    ∀ m ∈ before, (tree.entity m).name ≠ some name

theorem member?_eq_some_iff : tree.member? s name = some id ↔ tree.IsFirst s name id := by
  rw [member?, IsFirst]
  cases (tree.entity s).content with
  | sect title members =>
    simp only [List.find?_eq_some_iff_append, beq_iff_eq, Bool.not_eq_true', beq_eq_false_iff_ne]
    constructor
    · rintro ⟨hname, before, after, hmembers, hbefore⟩
      exact ⟨title, members, before, after, rfl, hmembers, hname, hbefore⟩
    · rintro ⟨_, _, before, after, hcontent, hmembers, hname, hbefore⟩
      cases hcontent
      exact ⟨hname, before, after, hmembers, hbefore⟩
  | array items => simp
  | expression root openParens => simp

/-- What first matches lead to from the root section on. -/
inductive LeadsTo (tree : Tree) : List String → EntityId → Prop
  | start : LeadsTo tree [] root
  | member {names : List String} {s : EntityId} {name : String} {id : EntityId} :
      LeadsTo tree names s → tree.IsFirst s name id → LeadsTo tree (names ++ [name]) id

theorem leadsTo_iff_foldlM : tree.LeadsTo names id ↔ names.foldlM tree.member? root = some id := by
  constructor
  · intro h
    induction h with
    | start => rfl
    | member _ hfirst ih =>
      rw [List.foldlM_append, ih]
      simpa using member?_eq_some_iff.mpr hfirst
  · intro h
    induction names using List.reverseRecOn generalizing id with
    | nil => exact Option.some.inj h ▸ .start
    | append_singleton names name ih =>
      rw [List.foldlM_append] at h
      obtain ⟨s, hs, hid⟩ := Option.bind_eq_some_iff.mp h
      exact .member (ih hs) (member?_eq_some_iff.mp (by simpa using hid))

/-! ## The way to an entity -/

/-- The names on the way to an entity from below the root section, over at most `n` parents. -/
def namesDown (tree : Tree) : Nat → EntityId → List String
  | 0, _ => []
  | n + 1, id =>
    match (tree.entity id).parent with
    | some s => tree.namesDown n s ++ (tree.entity id).name.toList
    | none => []

def memberNames (tree : Tree) (id : EntityId) : List String :=
  tree.namesDown tree.entities.size id

/-- The names on the way to an entity with points between them. -/
def memberPath (tree : Tree) (id : EntityId) : String :=
  String.intercalate "." (tree.memberNames id)

/-- An entity is the first one with its name in its parent. -/
def Unshadowed (tree : Tree) (id : EntityId) : Prop :=
  ∃ s before after, (tree.entity id).parent = some s ∧
    (tree.entity s).content.children.toList = before ++ id :: after ∧
    ∀ m ∈ before, (tree.entity m).name ≠ (tree.entity id).name

/-- All that an entity is in are sections, and no other entity hides it or one of these. -/
structure Visible (tree : Tree) (id : EntityId) : Prop where
  sections : ∀ a, tree.entityLinks.Below a id → a ≠ id → (tree.entity a).content.isSection
  unshadowed : ∀ a, tree.entityLinks.Below a id → a ≠ root → tree.Unshadowed a

/-- Only entities in the table list others. -/
theorem lt_of_mem_children {c : EntityId} (h : c ∈ tree.entityLinks.children id) :
    id < tree.entities.size := by
  refine Nat.lt_of_not_le fun hle => ?_
  have hdefault : tree.entity id = default := by
    rw [entity, Array.getD_eq_getD_getElem?, Array.getElem?_eq_none hle, Option.getD_none]
  have hchildren : c ∈ (tree.entity id).content.children.toList := h
  rw [hdefault] at hchildren
  exact absurd hchildren List.not_mem_nil

namespace Linked

variable (hlinked : tree.Linked) {a c : EntityId}

include hlinked

/-- What an entity lists has it as its parent, and comes after it. -/
theorem parent_of_mem (h : c ∈ tree.entityLinks.children id) :
    (tree.entity c).parent = some id ∧ id < c ∧ c < tree.entities.size := by
  have hid := lt_of_mem_children h
  obtain ⟨hlt, hc⟩ := hlinked.entities.stored id hid c h
  have hne : c ∉ [Tree.root] := by
    rw [List.mem_singleton]
    exact Nat.ne_of_gt (Nat.lt_of_le_of_lt (Nat.zero_le id) hlt)
  obtain ⟨p, hp, -, -, hunique⟩ := hlinked.entities.inner c hc hne
  exact ⟨hunique id hid h ▸ hp, hlt, hc⟩

/-- What is above a member is above its section. -/
theorem below_of_mem (h : c ∈ tree.entityLinks.children s) (ha : tree.entityLinks.Below a c) :
    a = c ∨ tree.entityLinks.Below a s := by
  cases ha with
  | top => exact .inl rfl
  | @child i _ hbelow hmem =>
    have hs := (hlinked.parent_of_mem h).1
    rw [(hlinked.parent_of_mem hmem).1, Option.some.injEq] at hs
    exact .inr (hs ▸ hbelow)

theorem le_of_below (ha : tree.entityLinks.Below a id) : a ≤ id := by
  induction ha with
  | top => exact Nat.le_refl a
  | child _ hmem ih => exact Nat.le_trans ih (Nat.le_of_lt (hlinked.parent_of_mem hmem).2.1)

/-- Nothing is above the root section. -/
theorem eq_root_of_below (ha : tree.entityLinks.Below a Tree.root) : a = Tree.root :=
  Nat.le_zero.mp (hlinked.le_of_below ha)

theorem namesDown_root (n : Nat) : tree.namesDown n Tree.root = [] := by
  cases n with
  | zero => rfl
  | succ n =>
    have hroot : (tree.entity Tree.root).parent = none :=
      (hlinked.entities.root Tree.root List.mem_cons_self).2.1
    rw [namesDown, hroot]

/-- The way to a member goes on from its section. -/
theorem namesDown_of_mem {n : Nat} (h : c ∈ tree.entityLinks.children s)
    (hname : (tree.entity c).name = some name) :
    tree.namesDown (n + 1) c = tree.namesDown n s ++ [name] := by
  rw [namesDown, (hlinked.parent_of_mem h).1, hname]
  rfl

end Linked

theorem IsFirst.children_eq (h : tree.IsFirst s name id) :
    ∃ before after, (tree.entity s).content.children.toList = before ++ id :: after ∧
      (tree.entity id).name = some name ∧ ∀ m ∈ before, (tree.entity m).name ≠ some name := by
  obtain ⟨title, members, before, after, hcontent, hmembers, hname, hbefore⟩ := h
  exact ⟨before, after, hcontent ▸ hmembers, hname, hbefore⟩

theorem IsFirst.mem (h : tree.IsFirst s name id) : id ∈ tree.entityLinks.children s := by
  obtain ⟨before, after, hchildren, -, -⟩ := h.children_eq
  show id ∈ (tree.entity s).content.children.toList
  rw [hchildren]
  exact List.mem_append_right _ List.mem_cons_self

/-- First matches lead to entities in the table, along the names on the way to them. -/
theorem LeadsTo.namesDown_eq (hlinked : tree.Linked) (h : tree.LeadsTo names id) :
    id < tree.entities.size ∧ ∀ n, id < n → tree.namesDown n id = names := by
  induction h with
  | start =>
    exact ⟨(hlinked.entities.root Tree.root List.mem_cons_self).1,
      fun n _ => hlinked.namesDown_root n⟩
  | @member names s name id _ hfirst ih =>
    obtain ⟨-, -, -, hname, -⟩ := hfirst.children_eq
    obtain ⟨-, hlt, hstored⟩ := hlinked.parent_of_mem hfirst.mem
    refine ⟨hstored, fun n hn => ?_⟩
    obtain ⟨k, rfl⟩ := Nat.exists_eq_add_of_lt hn
    rw [hlinked.namesDown_of_mem hfirst.mem hname,
      ih.2 _ (Nat.lt_of_lt_of_le hlt (Nat.le_add_right id k))]

/-- What first matches lead to is visible. -/
theorem LeadsTo.visible (hlinked : tree.Linked) (h : tree.LeadsTo names id) : tree.Visible id := by
  induction h with
  | start =>
    exact ⟨fun a ha hne => absurd (hlinked.eq_root_of_below ha) hne,
      fun a ha hne => absurd (hlinked.eq_root_of_below ha) hne⟩
  | @member names s name id _ hfirst ih =>
    obtain ⟨before, after, hchildren, hname, hbefore⟩ := hfirst.children_eq
    refine ⟨fun a ha hne => ?_, fun a ha hne => ?_⟩
    · by_cases hs : a = s
      · obtain ⟨title, members, -, -, hcontent, -⟩ := hfirst
        rw [hs, hcontent]
        rfl
      · exact ih.sections a ((hlinked.below_of_mem hfirst.mem ha).resolve_left hne) hs
    · rcases hlinked.below_of_mem hfirst.mem ha with rfl | ha
      · exact ⟨s, before, after, (hlinked.parent_of_mem hfirst.mem).1, hchildren,
          fun m hm => hname ▸ hbefore m hm⟩
      · exact ih.unshadowed a ha hne

/-- A member that is visible is the first match of its name. -/
theorem Visible.isFirst {ops : List String} (hlinked : tree.Linked) (hwell : tree.WellFormed ops)
    (h : tree.Visible id) (hmem : id ∈ tree.entityLinks.children s) :
    ∃ name, tree.IsFirst s name id := by
  obtain ⟨hparent, hlt, -⟩ := hlinked.parent_of_mem hmem
  have hsection := h.sections s (.child .top hmem) (Nat.ne_of_lt hlt)
  obtain ⟨s', before, after, hparent', hchildren, hbefore⟩ :=
    h.unshadowed id .top (Nat.ne_of_gt (Nat.lt_of_le_of_lt (Nat.zero_le s) hlt))
  obtain rfl : s = s' := Option.some.inj (hparent.symm.trans hparent')
  have hcontent := (hwell.entities s (lt_of_mem_children hmem)).content
  cases hsect : (tree.entity s).content with
  | sect title members =>
    rw [hsect] at hcontent hchildren
    obtain ⟨name, hname, -⟩ := hcontent.2 id (Array.mem_toList_iff.mp (hchildren ▸ by simp))
    exact ⟨name, title, members, before, after, hsect, hchildren, hname,
      fun m hm => hname ▸ hbefore m hm⟩
  | array items | expression root openParens =>
    rw [hsect] at hsection
    cases hsection

/-- The names on the way to a visible entity lead to it. -/
theorem Visible.leadsTo {ops : List String} (hlinked : tree.Linked) (hwell : tree.WellFormed ops)
    (hbelow : tree.entityLinks.Below Tree.root id) (h : tree.Visible id) :
    ∃ names, tree.LeadsTo names id := by
  induction hbelow with
  | top => exact ⟨[], .start⟩
  | @child s id _ hmem ih =>
    obtain ⟨name, hfirst⟩ := h.isFirst hlinked hwell hmem
    have hs : tree.Visible s :=
      ⟨fun a ha _ => h.sections a (.child ha hmem) (Nat.ne_of_lt (Nat.lt_of_le_of_lt
        (hlinked.le_of_below ha) (hlinked.parent_of_mem hmem).2.1)),
        fun a ha => h.unshadowed a (.child ha hmem)⟩
    obtain ⟨names, hnames⟩ := ih hs
    exact ⟨names ++ [name], hnames.member hfirst⟩

/-- An entity that the names of a path lead to is not the root section. -/
theorem LeadsTo.ne_root (hlinked : tree.Linked) (h : tree.LeadsTo names id) (hne : names ≠ []) :
    id ≠ root := by
  cases h with
  | start => exact absurd rfl hne
  | member _ hfirst =>
    exact Nat.ne_of_gt (Nat.lt_of_le_of_lt (Nat.zero_le _) (hlinked.parent_of_mem hfirst.mem).2.1)

theorem LeadsTo.eq_root (h : tree.LeadsTo [] id) : id = root :=
  (Option.some.inj (leadsTo_iff_foldlM.mp h)).symm

theorem LeadsTo.memberNames_eq (hlinked : tree.Linked) (h : tree.LeadsTo names id) :
    tree.memberNames id = names :=
  (h.namesDown_eq hlinked).2 _ (h.namesDown_eq hlinked).1

theorem leadsTo_iff_visible {ops : List String} (hlinked : tree.Linked)
    (hwell : tree.WellFormed ops) (hid : id < tree.entities.size) :
    tree.LeadsTo (tree.memberNames id) id ↔ tree.Visible id := by
  refine ⟨fun h => h.visible hlinked, fun h => ?_⟩
  obtain ⟨r, hr, hbelow⟩ := hlinked.entities.reached id hid
  obtain rfl := List.mem_singleton.mp hr
  obtain ⟨names, hnames⟩ := h.leadsTo hlinked hwell hbelow
  rwa [hnames.memberNames_eq hlinked]

/-! ## Paths in a tree -/

variable {source : String} {ops : List String} {filename : Option String}

/-- A path leads to the entity that the first matches of its names lead to.  This is a visible
entity of which the path is this one, and has no points in the names on the way to it. -/
theorem find_iff_memberPath (h : Tree.read source ops filename = .ok tree) (path : String)
    (id : EntityId) :
    (tree.find? path = some id ↔ tree.LeadsTo (pathNames path) id) ∧
      (tree.find? path = some id ↔ id < tree.entities.size ∧ id ≠ root ∧ tree.Visible id ∧
        (∀ name ∈ tree.memberNames id, '.' ∉ name.toList) ∧ path = tree.memberPath id) := by
  have hlinked := linked_of_read h
  have hwell := wellFormed_of_read h
  have hfind : tree.find? path = some id ↔ tree.LeadsTo (pathNames path) id :=
    leadsTo_iff_foldlM.symm
  refine ⟨hfind, hfind.trans ⟨fun hpath => ?_, ?_⟩⟩
  · have hnames := hpath.memberNames_eq hlinked
    refine ⟨(hpath.namesDown_eq hlinked).1, hpath.ne_root hlinked (pathNames_ne_nil path),
      hpath.visible hlinked, ?_, ?_⟩
    · rw [hnames]
      exact fun name => not_mem_of_mem_pathNames
    · rw [memberPath, hnames, intercalate_pathNames]
  · rintro ⟨hid, hne, hvisible, hpoints, rfl⟩
    have hnames := (leadsTo_iff_visible hlinked hwell hid).mpr hvisible
    have hsome : tree.memberNames id ≠ [] := fun hnil => hne (LeadsTo.eq_root (hnil ▸ hnames))
    rwa [memberPath, pathNames_intercalate hsome hpoints]

theorem find_of_nested : ∃ tree,
    Tree.read "#r{ a = #s{ b = 1; }; }" [] none = .ok tree ∧
      tree.find? "a.b" = some 2 ∧ tree.Visible 2 ∧ tree.memberPath 2 = "a.b" := by
  obtain ⟨tree, h, hfind⟩ : ∃ tree,
      Tree.read "#r{ a = #s{ b = 1; }; }" [] none = .ok tree ∧
        tree.find? "a.b" == some 2 :=
    exists_of_any (p := fun tree => tree.find? "a.b" == some 2) (by decide +kernel)
  have hfind := eq_of_beq hfind
  obtain ⟨-, -, hvisible, -, hpath⟩ := (find_iff_memberPath h "a.b" 2).2.mp hfind
  exact ⟨tree, h, hfind, hvisible, hpath.symm⟩

/-- A name that holds a point is cut in two, and nothing is found. -/
theorem not_found_of_point : ∃ tree, Tree.read "#r{ a.b = 1; }" [] none = .ok tree ∧
    1 < tree.entities.size ∧ tree.Visible 1 ∧ tree.memberPath 1 = "a.b" ∧
      tree.find? (tree.memberPath 1) = none := by
  obtain ⟨tree, h, hcheck⟩ : ∃ tree, Tree.read "#r{ a.b = 1; }" [] none = .ok tree ∧
      decide (1 < tree.entities.size ∧ ["a.b"].foldlM tree.member? root = some 1 ∧
        tree.memberPath 1 = "a.b" ∧ tree.find? (tree.memberPath 1) = none) :=
    exists_of_any (p := fun tree => decide (1 < tree.entities.size ∧ _)) (by decide +kernel)
  obtain ⟨hstored, hleads, hpath, hnone⟩ := of_decide_eq_true hcheck
  exact ⟨tree, h, hstored, (leadsTo_iff_foldlM.mpr hleads).visible (linked_of_read h), hpath, hnone⟩

end Tree

end Formulary

import Formulary.Proofs.Document.Word
import Formulary.Proofs.Layout.Placed
import Formulary.Proofs.Text.Escaping

/-!
# The lines of an outline determine it

A line says by its leading spaces how deep its node is, so that the lines of a node end where a line
stands less deep.  Names, titles and labels hold no spaces, and escaped texts no line breaks.

* `cut_unique`: a list is cut in one way at a mark.
* `IsLine`, `join_injective`: a text is cut into its lines in one way.
* `leading`, `Outdents`: how deep a line stands.
* `EntityOutline.Named`: the names and titles of an outline are names; `Entry.named` for documents.
* `ElementOutline.rowLines_unique`, `EntityOutline.allLines_unique`: the outlines of some lines.
* `EntityOutline.eq_of_join`: the outline of a text.
-/

namespace Formulary

/-! ## Lines -/

/-- A list is cut in one way in front of the first mark in it. -/
theorem cut_unique {α : Type} {stop : α} {xs xs' ys ys' : List α} (hxs : stop ∉ xs)
    (hxs' : stop ∉ xs') (hys : ∀ y ∈ ys.head?, y = stop) (hys' : ∀ y ∈ ys'.head?, y = stop)
    (h : xs ++ ys = xs' ++ ys') : xs = xs' ∧ ys = ys' := by
  classical
  have htake : ∀ {xs ys : List α}, stop ∉ xs → (∀ y ∈ ys.head?, y = stop) →
      (xs ++ ys).takeWhile (fun x => decide (x ≠ stop)) = xs := by
    intro xs ys hxs hys
    have hall : ∀ x ∈ xs, decide (x ≠ stop) = true := fun x hx =>
      decide_eq_true (ne_of_mem_of_not_mem hx hxs)
    rw [List.takeWhile_append_of_pos hall]
    cases ys with
    | nil => exact List.append_nil xs
    | cons y ys => rw [List.takeWhile_cons_of_neg (by simp [hys y rfl]), List.append_nil]
  have heq := congrArg (List.takeWhile fun x => decide (x ≠ stop)) h
  rw [htake hxs hys, htake hxs' hys'] at heq
  subst heq
  exact ⟨rfl, List.append_cancel_left h⟩

def IsLine (l : String) : Prop := ∃ body, l.toList = body ++ ['\n'] ∧ '\n' ∉ body

theorem IsLine.ne_empty {l : String} (h : IsLine l) : l.toList ≠ [] := by
  obtain ⟨body, hl, -⟩ := h
  rw [hl]
  simp

/-- A text is cut into its lines in one way. -/
theorem join_injective {ls ls' : List String} (hls : ∀ l ∈ ls, IsLine l)
    (hls' : ∀ l ∈ ls', IsLine l) (h : String.join ls = String.join ls') : ls = ls' := by
  have hnil : ∀ {l : String} {ls : List String}, IsLine l → String.join (l :: ls) ≠ "" := by
    intro l ls hl h
    have hempty := congrArg String.toList h
    rw [String.join_cons, String.toList_append] at hempty
    exact hl.ne_empty (List.append_eq_nil_iff.mp hempty).1
  induction ls generalizing ls' with
  | nil =>
    cases ls' with
    | nil => rfl
    | cons l' ls' => exact absurd h.symm (hnil (hls' l' List.mem_cons_self))
  | cons l ls ih =>
    cases ls' with
    | nil => exact absurd h (hnil (hls l List.mem_cons_self))
    | cons l' ls' =>
      rw [List.forall_mem_cons] at hls hls'
      obtain ⟨body, hl, hbody⟩ := hls.1
      obtain ⟨body', hl', hbody'⟩ := hls'.1
      have hchars := congrArg String.toList h
      rw [String.join_cons, String.join_cons, String.toList_append, String.toList_append, hl, hl',
        List.append_assoc, List.append_assoc] at hchars
      obtain ⟨heq, hrest⟩ := cut_unique hbody hbody' (by simp) (by simp) hchars
      have hline : l = l' := String.toList_injective (by rw [hl, hl', heq])
      have hjoin : String.join ls = String.join ls' :=
        String.toList_injective (List.cons.inj hrest).2
      rw [hline, ih hls.2 hls'.2 hjoin]

/-! ## Depth -/

def leading (l : String) : Nat := (l.toList.takeWhile (· = ' ')).length

theorem leading_eq {width : Nat} {l : String} {word rest : List Char}
    (hl : l.toList = List.replicate width ' ' ++ (word ++ rest)) (hne : word ≠ [])
    (hword : ' ' ∉ word) : leading l = width := by
  have hspaces : ∀ c ∈ List.replicate width ' ', decide (c = ' ') = true := fun c hc =>
    decide_eq_true (List.eq_of_mem_replicate hc)
  obtain ⟨c, cs, rfl⟩ := List.exists_cons_of_ne_nil hne
  have hne : c ≠ ' ' := by
    rintro rfl
    exact hword List.mem_cons_self
  have hstop : (c :: cs ++ rest).takeWhile (· = ' ') = [] :=
    List.takeWhile_cons_of_neg (by simpa using hne)
  rw [leading, hl, List.takeWhile_append_of_pos hspaces, hstop]
  simp

/-- What follows does not stand as deep. -/
def Outdents (depth : Nat) (ls : List String) : Prop := ∀ l ∈ ls.head?, leading l < 2 * depth

theorem outdents_nil (depth : Nat) : Outdents depth [] := fun _ h => nomatch h

theorem Outdents.succ {depth : Nat} {ls : List String} (h : Outdents depth ls) :
    Outdents (depth + 1) ls := fun l hl => Nat.lt_of_lt_of_le (h l hl) (by omega)

theorem outdents_cons {depth : Nat} {l : String} {ls : List String} (h : leading l = 2 * depth) :
    Outdents (depth + 1) (l :: ls) := by
  intro l' hl'
  cases hl'
  omega

theorem Outdents.cons_ne {depth : Nat} {l : String} {ls ls' : List String} (h : Outdents depth ls')
    (hl : leading l = 2 * depth) : l :: ls ≠ ls' := by
  rintro rfl
  have hlt := h l rfl
  omega

/-! ## Elements -/

theorem ElementKind.label_injective {kind kind' : ElementKind} (h : kind.label = kind'.label) :
    kind = kind' := by
  cases kind <;> cases kind' <;> first | rfl | exact absurd h (by decide)

theorem ElementKind.label_word (kind : ElementKind) :
    kind.label.toList ≠ [] ∧ ' ' ∉ kind.label.toList ∧ '\n' ∉ kind.label.toList := by
  cases kind <;> decide

namespace ElementOutline

def line (depth : Nat) (kind : ElementKind) (text : String) : String :=
  Tree.indent depth ++ kind.label ++ " '" ++ Escape.text text ++ "'\n"

theorem toList_line (depth : Nat) (kind : ElementKind) (text : String) :
    (line depth kind text).toList = List.replicate (2 * depth) ' ' ++
      (kind.label.toList ++ ' ' :: '\'' :: ((Escape.text text).toList ++ ['\'', '\n'])) := by
  simp [line]

theorem isLine_line (depth : Nat) (kind : ElementKind) (text : String) :
    IsLine (line depth kind text) := by
  refine ⟨List.replicate (2 * depth) ' ' ++
    (kind.label.toList ++ ' ' :: '\'' :: ((Escape.text text).toList ++ ['\''])), ?_, ?_⟩
  · rw [toList_line]
    simp
  · simp [kind.label_word.2.2, Escape.newline_notMem_text]

theorem leading_line (depth : Nat) (kind : ElementKind) (text : String) :
    leading (line depth kind text) = 2 * depth :=
  leading_eq (toList_line depth kind text) kind.label_word.1 kind.label_word.2.1

theorem line_injective {depth : Nat} {kind kind' : ElementKind} {text text' : String}
    (h : line depth kind text = line depth kind' text') : kind = kind' ∧ text = text' := by
  have hchars := congrArg String.toList h
  rw [toList_line, toList_line, List.append_cancel_left_eq] at hchars
  obtain ⟨hkind, hrest⟩ := cut_unique kind.label_word.2.1 kind'.label_word.2.1 (by simp) (by simp)
    hchars
  have htext := List.append_cancel_right (List.cons.inj (List.cons.inj hrest).2).2
  exact ⟨ElementKind.label_injective (String.toList_injective hkind),
    Escape.text_injective (String.toList_injective htext)⟩

/-- Neither the rest of a row nor what follows it stands as deep as what is under its elements. -/
theorem outdents_rowLines {depth : Nat} {rest : List String} (h : Outdents depth rest) :
    ∀ os : List ElementOutline, Outdents (depth + 1) (rowLines depth os ++ rest)
  | [] => h.succ
  | .mk kind text _ :: _ => outdents_cons (leading_line depth kind text)

/-- The lines of a row end where a line stands less deep, and determine the row. -/
theorem rowLines_unique {depth : Nat} : ∀ {os os' : List ElementOutline} {rest rest' : List String},
    Outdents depth rest → Outdents depth rest' →
    rowLines depth os ++ rest = rowLines depth os' ++ rest' → os = os' ∧ rest = rest'
  | [], [], _, _, _, _, h => ⟨rfl, h⟩
  | [], .mk kind' text' _ :: _, _, _, hrest, _, h =>
    absurd h.symm (hrest.cons_ne (leading_line depth kind' text'))
  | .mk kind text _ :: _, [], _, _, _, hrest', h =>
    absurd h (hrest'.cons_ne (leading_line depth kind text))
  | .mk kind text children :: os, .mk kind' text' children' :: os', rest, rest', hrest, hrest',
      h => by
    simp only [rowLines, lines, List.cons_append, List.append_assoc] at h
    obtain ⟨hline, hunder⟩ := List.cons.inj h
    obtain ⟨rfl, rfl⟩ := line_injective hline
    -- what is under the first elements ends where the rows go on, or what follows them begins
    obtain ⟨rfl, hnext⟩ := rowLines_unique (outdents_rowLines hrest os)
      (outdents_rowLines hrest' os') hunder
    obtain ⟨rfl, rfl⟩ := rowLines_unique hrest hrest' hnext
    exact ⟨rfl, rfl⟩

end ElementOutline

/-! ## Headings -/

namespace EntityOutline

def heading : EntityOutline → String
  | .sect _ title _ => "SECTION '" ++ title.getD "" ++ "' \x7b\n"
  | .array _ _ => "ARRAY [\n"
  | .expression _ _ => "EXPRESSION\n"

def inside (depth : Nat) : EntityOutline → List String
  | .sect _ _ members => allLines (depth + 1) members ++ [Tree.indent depth ++ "\x7d\n"]
  | .array _ items => allLines (depth + 1) items ++ [Tree.indent depth ++ "]\n"]
  | .expression _ row => ElementOutline.rowLines (depth + 1) row

def opening (depth : Nat) (o : EntityOutline) : String :=
  Tree.indent depth ++ binding o.name ++ o.heading

theorem lines_eq (depth : Nat) (o : EntityOutline) :
    o.lines depth = o.opening depth :: o.inside depth := by
  cases o with
  | sect name title members =>
    rw [lines, opening, heading, EntityOutline.name]
    simp only [String.append_assoc]
    rfl
  | array | expression => rfl

mutual

def Named : EntityOutline → Prop
  | .sect name title members => (∀ n ∈ name, isName n.toList) ∧
      (∃ t, title = some t ∧ isName t.toList) ∧ AllNamed members
  | .array name items => (∀ n ∈ name, isName n.toList) ∧ AllNamed items
  | .expression name _ => ∀ n ∈ name, isName n.toList

def AllNamed : List EntityOutline → Prop
  | [] => True
  | o :: os => o.Named ∧ AllNamed os

end

theorem Named.name {o : EntityOutline} (h : o.Named) : ∀ n ∈ o.name, isName n.toList := by
  cases o with
  | sect | array => exact h.1
  | expression => exact h

theorem word_of_isName {name : String} (h : isName name.toList) :
    name.toList ≠ [] ∧ ' ' ∉ name.toList ∧ '\n' ∉ name.toList := by
  have hblank : ∀ c ∈ name.toList, isBlank c = false := fun c hc =>
    isBlank_of_isNamePart (isName_chars h c hc)
  refine ⟨fun hnil => ?_, fun hspace => ?_, fun hbreak => ?_⟩
  · rw [hnil] at h
    cases h
  · cases hblank _ hspace
  · cases hblank _ hbreak

theorem exists_heading (o : EntityOutline) : ∃ word rest, o.heading.toList = word ++ rest ∧
    word ≠ [] ∧ ' ' ∉ word ∧ (∀ c ∈ rest.head?, c = ' ') ∧
    ∀ after, rest ≠ ' ' :: '=' :: after := by
  cases o with
  | sect name title members =>
    exact ⟨"SECTION".toList, ' ' :: '\'' :: ((title.getD "").toList ++ "' \x7b\n".toList),
      by simp [heading], by decide, by decide, by simp, by simp⟩
  | array name items =>
    exact ⟨"ARRAY".toList, " [\n".toList, by simp [heading], by decide, by decide, by simp, by simp⟩
  | expression name row =>
    exact ⟨"EXPRESSION\n".toList, [], by simp [heading], by decide, by decide, by simp, by simp⟩

theorem toList_opening (depth : Nat) (o : EntityOutline) : (o.opening depth).toList =
    List.replicate (2 * depth) ' ' ++ ((binding o.name).toList ++ o.heading.toList) := by
  simp [opening]

theorem toList_binding_some (name : String) :
    (binding (some name)).toList = name.toList ++ [' ', '=', ' '] := by
  simp [binding]

theorem leading_opening {o : EntityOutline} (h : o.Named) (depth : Nat) :
    leading (o.opening depth) = 2 * depth := by
  have hchars := toList_opening depth o
  cases hname : o.name with
  | none =>
    obtain ⟨word, rest, hheading, hne, hword, -⟩ := o.exists_heading
    rw [hname, hheading, show (binding none).toList = [] from rfl, List.nil_append] at hchars
    exact leading_eq hchars hne hword
  | some name =>
    have hword := word_of_isName (h.name name hname)
    rw [hname, toList_binding_some, List.append_assoc] at hchars
    exact leading_eq hchars hword.1 hword.2.1

theorem binding_some_ne {name : String} (h : isName name.toList) (o o' : EntityOutline) :
    (binding (some name)).toList ++ o.heading.toList ≠ o'.heading.toList := by
  intro heq
  obtain ⟨word, rest, hheading, -, hword, hrest, hne⟩ := o'.exists_heading
  rw [toList_binding_some, hheading, List.append_assoc] at heq
  obtain ⟨-, heq⟩ := cut_unique (word_of_isName h).2.1 hword (by simp) hrest heq
  exact hne _ heq.symm

theorem opening_injective {depth : Nat} {o o' : EntityOutline} (ho : o.Named) (ho' : o'.Named)
    (h : o.opening depth = o'.opening depth) : o.name = o'.name ∧ o.heading = o'.heading := by
  have hchars := congrArg String.toList h
  rw [toList_opening, toList_opening, List.append_cancel_left_eq] at hchars
  cases hname : o.name with
  | none =>
    rw [hname] at hchars
    cases hname' : o'.name with
    | none =>
      rw [hname'] at hchars
      exact ⟨rfl, String.toList_injective hchars⟩
    | some name' =>
      rw [hname'] at hchars
      exact absurd hchars.symm (binding_some_ne (ho'.name name' hname') o' o)
  | some name =>
    rw [hname] at hchars
    cases hname' : o'.name with
    | none =>
      rw [hname'] at hchars
      exact absurd hchars (binding_some_ne (ho.name name hname) o o')
    | some name' =>
      rw [hname', toList_binding_some, toList_binding_some, List.append_assoc,
        List.append_assoc] at hchars
      obtain ⟨hnames, hrest⟩ := cut_unique (word_of_isName (ho.name name hname)).2.1
        (word_of_isName (ho'.name name' hname')).2.1 (by simp) (by simp) hchars
      exact ⟨congrArg some (String.toList_injective hnames),
        String.toList_injective (List.append_cancel_left hrest)⟩

theorem title_of_heading {name name' : Option String} {t t' : String}
    {members members' : List EntityOutline}
    (h : (sect name (some t) members).heading = (sect name' (some t') members').heading) :
    t = t' := by
  have hchars := congrArg String.toList h
  simp only [heading, Option.getD_some, String.toList_append, List.append_assoc,
    List.append_cancel_left_eq] at hchars
  exact String.toList_injective (List.append_cancel_right hchars)

/-! ## Entities -/

theorem leading_closing (mark : String) (hmark : mark.toList ≠ [] ∧ ' ' ∉ mark.toList)
    (depth : Nat) : leading (Tree.indent depth ++ mark) = 2 * depth := by
  have hchars : (Tree.indent depth ++ mark).toList =
      List.replicate (2 * depth) ' ' ++ (mark.toList ++ []) := by simp
  exact leading_eq hchars hmark.1 hmark.2

theorem outdents_allLines {depth : Nat} {rest : List String} (h : Outdents depth rest) :
    ∀ {os : List EntityOutline}, AllNamed os → Outdents (depth + 1) (allLines depth os ++ rest)
  | [], _ => h.succ
  | o :: os, hos => by
    rw [allLines, lines_eq]
    exact outdents_cons (leading_opening hos.1 depth)

mutual

/-- The lines after the first one of an entity end where a line stands no deeper than that, and
determine with it the entity. -/
theorem inside_unique {depth : Nat} : ∀ {o o' : EntityOutline} {rest rest' : List String},
    o.Named → o'.Named → Outdents (depth + 1) rest → Outdents (depth + 1) rest' →
    o.heading = o'.heading → o.name = o'.name →
    o.inside depth ++ rest = o'.inside depth ++ rest' → o = o' ∧ rest = rest'
  | .sect name title members, .sect name' title' members', rest, rest', ho, ho', _, _, hheading,
      hname, h => by
    obtain ⟨-, ⟨t, rfl, -⟩, hmembers⟩ := ho
    obtain ⟨-, ⟨t', rfl, -⟩, hmembers'⟩ := ho'
    obtain rfl := title_of_heading hheading
    obtain rfl : name = name' := hname
    rw [inside, inside, List.append_assoc, List.append_assoc] at h
    -- the members end where the line that closes the section stands
    have hclose := leading_closing "\x7d\n" (by decide) depth
    obtain ⟨rfl, hrest⟩ := allLines_unique hmembers hmembers' (outdents_cons hclose)
      (outdents_cons hclose) h
    exact ⟨rfl, (List.cons.inj hrest).2⟩
  | .array name items, .array name' items', rest, rest', ho, ho', _, _, _, hname, h => by
    obtain rfl : name = name' := hname
    rw [inside, inside, List.append_assoc, List.append_assoc] at h
    have hclose := leading_closing "]\n" (by decide) depth
    obtain ⟨rfl, hrest⟩ := allLines_unique ho.2 ho'.2 (outdents_cons hclose)
      (outdents_cons hclose) h
    exact ⟨rfl, (List.cons.inj hrest).2⟩
  | .expression name row, .expression name' row', rest, rest', _, _, hrest, hrest', _, hname,
      h => by
    obtain rfl : name = name' := hname
    obtain ⟨rfl, hrest⟩ := ElementOutline.rowLines_unique hrest hrest' h
    exact ⟨rfl, hrest⟩
  | .sect .., .array .., _, _, _, _, _, _, hheading, _, _
  | .sect .., .expression .., _, _, _, _, _, _, hheading, _, _
  | .array .., .sect .., _, _, _, _, _, _, hheading, _, _
  | .array .., .expression .., _, _, _, _, _, _, hheading, _, _
  | .expression .., .sect .., _, _, _, _, _, _, hheading, _, _
  | .expression .., .array .., _, _, _, _, _, _, hheading, _, _ => by
    have hhead := congrArg (fun s => s.toList.head?) hheading
    simp [heading] at hhead

/-- The lines of some entities end where a line stands less deep, and determine them. -/
theorem allLines_unique {depth : Nat} : ∀ {os os' : List EntityOutline} {rest rest' : List String},
    AllNamed os → AllNamed os' → Outdents depth rest → Outdents depth rest' →
    allLines depth os ++ rest = allLines depth os' ++ rest' → os = os' ∧ rest = rest'
  | [], [], _, _, _, _, _, _, h => ⟨rfl, h⟩
  | [], o' :: os', _, _, _, hos', hrest, _, h => by
    rw [allLines, allLines, lines_eq] at h
    exact absurd h.symm (hrest.cons_ne (leading_opening hos'.1 depth))
  | o :: os, [], _, _, hos, _, _, hrest', h => by
    rw [allLines, allLines, lines_eq] at h
    exact absurd h (hrest'.cons_ne (leading_opening hos.1 depth))
  | o :: os, o' :: os', rest, rest', hos, hos', hrest, hrest', h => by
    rw [allLines, allLines, lines_eq, lines_eq, List.append_assoc, List.append_assoc] at h
    obtain ⟨hline, hunder⟩ := List.cons.inj h
    obtain ⟨hname, hheading⟩ := opening_injective hos.1 hos'.1 hline
    obtain ⟨rfl, hnext⟩ := inside_unique hos.1 hos'.1 (outdents_allLines hrest hos.2)
      (outdents_allLines hrest' hos'.2) hheading hname hunder
    obtain ⟨rfl, rfl⟩ := allLines_unique hos.2 hos'.2 hrest hrest' hnext
    exact ⟨rfl, rfl⟩

end

/-! ## Texts -/

theorem Named.isLine_opening {o : EntityOutline} (h : o.Named) (depth : Nat) :
    IsLine (o.opening depth) := by
  obtain ⟨body, hheading, hbody⟩ : IsLine o.heading := by
    cases o with
    | sect name title members =>
      obtain ⟨-, ⟨t, rfl, ht⟩, -⟩ := h
      refine ⟨"SECTION '".toList ++ (t.toList ++ "' \x7b".toList), by simp [heading], ?_⟩
      simp [(word_of_isName ht).2.2]
    | array => exact ⟨"ARRAY [".toList, by simp [heading], by decide⟩
    | expression => exact ⟨"EXPRESSION".toList, by simp [heading], by decide⟩
  have hbinding : '\n' ∉ (binding o.name).toList := by
    cases hname : o.name with
    | none => exact List.not_mem_nil
    | some name =>
      rw [toList_binding_some]
      simp [(word_of_isName (h.name name hname)).2.2]
  refine ⟨List.replicate (2 * depth) ' ' ++ ((binding o.name).toList ++ body), ?_, ?_⟩
  · rw [toList_opening, hheading]
    simp only [List.append_assoc]
  · simp [hbinding, hbody]

theorem isLine_closing (mark : Char) (hmark : mark ≠ '\n') (depth : Nat) :
    IsLine (Tree.indent depth ++ String.ofList [mark, '\n']) :=
  ⟨List.replicate (2 * depth) ' ' ++ [mark], by simp, by simpa using hmark.symm⟩

theorem isLine_of_mem_rowLines {l : String} : ∀ {depth : Nat} {os : List ElementOutline},
    l ∈ ElementOutline.rowLines depth os → IsLine l
  | _, [], h => nomatch h
  | depth, .mk kind text children :: os, h => by
    rw [ElementOutline.rowLines, ElementOutline.lines, List.cons_append, List.mem_cons,
      List.mem_append] at h
    rcases h with rfl | h | h
    · exact ElementOutline.isLine_line depth kind text
    · exact isLine_of_mem_rowLines h
    · exact isLine_of_mem_rowLines h

mutual

theorem isLine_of_mem_lines {l : String} : ∀ {depth : Nat} {o : EntityOutline}, o.Named →
    l ∈ o.lines depth → IsLine l
  | depth, .sect name title members, ho, h => by
    rw [lines_eq, inside, List.mem_cons, List.mem_append, List.mem_singleton] at h
    rcases h with rfl | h | rfl
    · exact ho.isLine_opening depth
    · exact isLine_of_mem_allLines ho.2.2 h
    · exact isLine_closing '}' (by decide) depth
  | depth, .array name items, ho, h => by
    rw [lines_eq, inside, List.mem_cons, List.mem_append, List.mem_singleton] at h
    rcases h with rfl | h | rfl
    · exact ho.isLine_opening depth
    · exact isLine_of_mem_allLines ho.2 h
    · exact isLine_closing ']' (by decide) depth
  | depth, .expression name row, ho, h => by
    rw [lines_eq, inside, List.mem_cons] at h
    rcases h with rfl | h
    · exact ho.isLine_opening depth
    · exact isLine_of_mem_rowLines h

theorem isLine_of_mem_allLines {l : String} : ∀ {depth : Nat} {os : List EntityOutline},
    AllNamed os → l ∈ allLines depth os → IsLine l
  | _, [], _, h => nomatch h
  | _, o :: os, hos, h => by
    rw [allLines, List.mem_append] at h
    rcases h with h | h
    · exact isLine_of_mem_lines hos.1 h
    · exact isLine_of_mem_allLines hos.2 h

end

/-- The text of an outline determines it. -/
theorem eq_of_join {o o' : EntityOutline} (ho : o.Named) (ho' : o'.Named)
    (h : String.join (o.lines 0) = String.join (o'.lines 0)) : o = o' := by
  have hlines := join_injective (fun l hl => isLine_of_mem_lines ho hl)
    (fun l hl => isLine_of_mem_lines ho' hl) h
  rw [lines_eq, lines_eq] at hlines
  obtain ⟨hline, hunder⟩ := List.cons.inj hlines
  obtain ⟨hname, hheading⟩ := opening_injective ho ho' hline
  have hunder : o.inside 0 ++ [] = o'.inside 0 ++ [] := congrArg (· ++ []) hunder
  exact (inside_unique ho ho' (outdents_nil 1) (outdents_nil 1) hheading hname hunder).1

end EntityOutline

/-! ## Documents -/

variable {ops : List String}

mutual

theorem Entry.named {name : Option String} (hname : ∀ n ∈ name, isName n.toList) : ∀ {v : Entry},
    v.valid ops → (v.outline name).Named
  | .sect title members, h => by
    rw [Entry.valid, Bool.and_eq_true] at h
    exact ⟨hname, ⟨title, rfl, h.1⟩, Binding.all_named h.2⟩
  | .array items, h => ⟨hname, Entry.all_named h⟩
  | .formula f, _ => hname

theorem Entry.all_named : ∀ {vs : List Entry}, Entry.allValid ops vs →
    EntityOutline.AllNamed (Entry.outlines vs)
  | [], _ => trivial
  | v :: vs, h => by
    rw [Entry.allValid, Bool.and_eq_true] at h
    exact ⟨Entry.named (by simp) h.1, Entry.all_named h.2⟩

theorem Binding.all_named : ∀ {ms : List Binding}, Binding.allValid ops ms →
    EntityOutline.AllNamed (Binding.outlines ms)
  | [], _ => trivial
  | .mk name v :: ms, h => by
    rw [Binding.allValid, Binding.valid, Bool.and_eq_true, Bool.and_eq_true] at h
    refine ⟨Entry.named (fun n hn => ?_) h.1.2, Binding.all_named h.2⟩
    cases hn
    exact h.1.1

end

theorem Document.named {d : Document} (h : d.valid ops) : d.outline.Named :=
  Entry.named (v := .sect d.title d.members) (by simp) h

end Formulary

import Formulary.Proofs.Document.Bare
import Formulary.Proofs.Reader.Nested

/-!
# Nests without blanks

A part of an entity that is complete is written with the separator after it, which may still be to
read.

* `OpenEntity.bare`, `OpenCall.bare`, `Nest.bare`: what is open, without blanks.
* `Nest.owed`: the separator after a value that has just been completed.
* `Nest.bare_close`, `OpenCall.bare_outline`: what closing an entity or a call adds.
-/

namespace Formulary

/-! ## Open entities -/

namespace OpenEntity

def separator : OpenEntity → Char
  | sect _ _ _ => ';'
  | array _ _ => ','

/-- The title of a section up to its brace. -/
def titleBare : Option String → List Glyph
  | none => []
  | some title => glyphs title ++ [.char '{']

def bare : OpenEntity → List Glyph
  | sect name title members => EntityOutline.nameBare name ++
      .char '#' :: (titleBare title ++ followed ';' (EntityOutline.bares members))
  | array name items =>
      EntityOutline.nameBare name ++ .char '[' :: followed ',' (EntityOutline.bares items)

theorem bare_add (e : OpenEntity) (o : EntityOutline) :
    (e.add o).bare = e.bare ++ (o.bare ++ [.char e.separator]) := by
  cases e <;> simp [add, bare, separator, EntityOutline.bares_append, EntityOutline.bares]

@[simp] theorem separator_add (e : OpenEntity) (o : EntityOutline) :
    (e.add o).separator = e.separator := by
  cases e <;> rfl

theorem bare_outline_sect (name : Option String) (title : String) (members : List EntityOutline) :
    (sect name (some title) members).outline.bare =
      (sect name (some title) members).bare ++ [.char '}'] := by
  simp [outline, bare, titleBare, EntityOutline.bare]

/-- The comma that an open array shows after its last item is the bracket of the closed one. -/
theorem exists_bare_array (name : Option String) {items : List EntityOutline} (h : items ≠ []) :
    ∃ part, (array name items).bare = part ++ [.char ','] ∧
      (array name items).outline.bare = part ++ [.char ']'] := by
  have hne : EntityOutline.bares items ≠ [] := by
    cases items with
    | nil => exact absurd rfl h
    | cons o os => simp [EntityOutline.bares]
  refine ⟨EntityOutline.nameBare name ++ .char '[' :: joined (EntityOutline.bares items), ?_, ?_⟩
  · simp [bare, followed_eq_joined hne]
  · simp [outline, EntityOutline.bare]

end OpenEntity

/-! ## Nests -/

/-- An open call without blanks, up to the last comma in it. -/
def OpenCall.bare (call : OpenCall) : List Glyph :=
  glyphs call.name ++ .char '(' :: followed ',' (call.done.map ElementOutline.rowBare)

theorem OpenFormula.bare_wrapper (row : List ElementOutline) :
    (wrapper row).bare = ElementOutline.rowBare row := by
  simp [wrapper, ElementOutline.bare, ElementOutline.rowBare]

theorem OpenCall.bare_outline (call : OpenCall) (row : List ElementOutline) :
    (call.outline row).bare = call.bare ++ (ElementOutline.rowBare row ++ [.char ')']) := by
  have hparts : ElementOutline.bares ((call.done ++ [row]).map OpenFormula.wrapper) =
      call.done.map ElementOutline.rowBare ++ [ElementOutline.rowBare row] := by
    rw [ElementOutline.bares_eq_map, List.map_map]
    simp [OpenFormula.bare_wrapper, Function.comp_def]
  simp only [outline, ElementOutline.bare]
  rw [hparts, joined_append]
  simp [bare]

namespace Nest

def openBare : List OpenEntity → List Glyph
  | [] => []
  | e :: es => openBare es ++ e.bare

def outerBare : List (OpenCall × OpenRow) → List Glyph
  | [] => []
  | (call, o) :: outer => outerBare outer ++ (ElementOutline.rowBare o.row ++ call.bare)

def bare : Nest → List Glyph
  | entity e es => openBare (e :: es)
  | row e es name f => openBare (e :: es) ++
      (EntityOutline.nameBare name ++ (outerBare f.outer ++ ElementOutline.rowBare f.inner.row))
  | done root => root.bare

/-- The separator after a value that has just been completed. -/
def owed : Nest → List Glyph
  | entity e _ => [.char e.separator]
  | _ => []

theorem bare_entity (e : OpenEntity) (es : List OpenEntity) :
    (entity e es).bare = openBare es ++ e.bare := rfl

theorem bare_close (e : OpenEntity) (es : List OpenEntity) :
    (close e es).bare = openBare es ++ (e.outline.bare ++ (close e es).owed) := by
  cases es with
  | nil => simp [close, bare, owed, openBare]
  | cons e' es => simp [close, bare, owed, openBare, OpenEntity.bare_add]

/-- A new leaf is written at the end of the innermost row. -/
theorem bare_addLeaf (e : OpenEntity) (es : List OpenEntity) (name : Option String)
    (f : OpenFormula) (kind : ElementKind) (text : String) :
    ((row e es name f).addLeaf kind text).bare =
      (row e es name f).bare ++ (ElementOutline.leaf kind text).bare := by
  simp [addLeaf, bare, OpenFormula.add]

end Nest

end Formulary

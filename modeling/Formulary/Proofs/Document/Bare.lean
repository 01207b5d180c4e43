import Formulary.Reader.Basic
import Formulary.Tree.Outline

/-!
# Texts without blanks

A text and a tree are compared by what they say outside blanks and comments: the characters outside
strings one by one, and every string as a whole.

* `Glyph`: a character outside strings, or a string.
* `EntityOutline.bare`: an outline written without blanks.
* `joined_append`, `followed_eq_joined`: marks between parts and after them.
* `bareText`, `bareSource`: a text without its blanks, also without its comments.
-/

namespace Formulary

/-- A character outside strings, or a whole string. -/
inductive Glyph where
  | char (c : Char)
  | string (text : String)
  deriving DecidableEq, Repr

def glyphs (text : String) : List Glyph := text.toList.map Glyph.char

def joined : List (List Glyph) → List Glyph
  | [] => []
  | [part] => part
  | part :: parts => part ++ .char ',' :: joined parts

def followed (c : Char) (parts : List (List Glyph)) : List Glyph :=
  parts.flatMap (· ++ [.char c])

/-! ## Outlines -/

mutual

def ElementOutline.bare : ElementOutline → List Glyph
  | .mk kind text children =>
    match kind with
    | .string => [.string text]
    | .function => glyphs text ++ .char '(' :: (joined (bares children) ++ [.char ')'])
    | .argument => (bares children).flatten
    | _ => glyphs text

def ElementOutline.bares : List ElementOutline → List (List Glyph)
  | [] => []
  | e :: es => e.bare :: bares es

end

def ElementOutline.rowBare (row : List ElementOutline) : List Glyph := (bares row).flatten

namespace EntityOutline

/-- The name of a member, with the equals sign after it. -/
def nameBare : Option String → List Glyph
  | none => []
  | some name => glyphs name ++ [.char '=']

mutual

/-- An entity without blanks, with its name in front. -/
def bare : EntityOutline → List Glyph
  | .sect name title members =>
    nameBare name ++ .char '#' :: (glyphs (title.getD "") ++ .char '{' ::
      (followed ';' (bares members) ++ [.char '}']))
  | .array name items => nameBare name ++ .char '[' :: (joined (bares items) ++ [.char ']'])
  | .expression name row => nameBare name ++ ElementOutline.rowBare row

def bares : List EntityOutline → List (List Glyph)
  | [] => []
  | e :: es => e.bare :: bares es

end

end EntityOutline

/-! ## Parts and separators -/

@[simp] theorem glyphs_push (text : String) (c : Char) :
    glyphs (text.push c) = glyphs text ++ [.char c] := by
  simp [glyphs]

@[simp] theorem glyphs_empty : glyphs "" = [] := rfl

@[simp] theorem glyphs_singleton (c : Char) : glyphs (String.singleton c) = [.char c] := by
  simp [glyphs]

@[simp] theorem followed_nil (c : Char) : followed c [] = [] := rfl

@[simp] theorem followed_append (c : Char) (ps qs : List (List Glyph)) :
    followed c (ps ++ qs) = followed c ps ++ followed c qs := by
  simp [followed]

@[simp] theorem followed_single (c : Char) (p : List Glyph) : followed c [p] = p ++ [.char c] := by
  simp [followed]

theorem joined_append (ps : List (List Glyph)) (p : List Glyph) :
    joined (ps ++ [p]) = followed ',' ps ++ p := by
  induction ps with
  | nil => rfl
  | cons q ps ih =>
    have hcons : joined (q :: (ps ++ [p])) = q ++ .char ',' :: joined (ps ++ [p]) := by
      cases ps <;> rfl
    rw [List.cons_append, hcons, ih]
    simp [followed]

theorem followed_eq_joined {ps : List (List Glyph)} (h : ps ≠ []) :
    followed ',' ps = joined ps ++ [.char ','] := by
  rw [← List.dropLast_concat_getLast h, joined_append]
  simp

theorem EntityOutline.bares_append (os os' : List EntityOutline) :
    bares (os ++ os') = bares os ++ bares os' := by
  induction os with
  | nil => rfl
  | cons o os ih => rw [List.cons_append, bares, ih, bares, List.cons_append]

theorem ElementOutline.bares_eq_map (os : List ElementOutline) : bares os = os.map bare := by
  induction os with
  | nil => rfl
  | cons o os ih => rw [bares, ih, List.map_cons]

@[simp] theorem ElementOutline.rowBare_nil : rowBare [] = [] := rfl

@[simp] theorem ElementOutline.rowBare_append (row row' : List ElementOutline) :
    rowBare (row ++ row') = rowBare row ++ rowBare row' := by
  simp [rowBare, bares_eq_map]

@[simp] theorem ElementOutline.rowBare_single (o : ElementOutline) : rowBare [o] = o.bare := by
  simp [rowBare, bares_eq_map]

/-! ## Texts -/

/-- Where a reading of glyphs stands: outside strings, or in a string of which some characters have
been read, perhaps after a backslash. -/
inductive ScanMode where
  | outside
  | inside (text : String)
  | escaped (text : String)
  deriving DecidableEq, Repr

structure Scan where
  written : List Glyph
  mode : ScanMode
  deriving DecidableEq, Repr

def Scan.next (s : Scan) (c : Char) : Scan :=
  match s.mode with
  | .outside =>
    if c = '"' then ⟨s.written, .inside ""⟩
    else if isBlank c then s
    else ⟨s.written ++ [.char c], .outside⟩
  | .inside text =>
    if c = '\\' then ⟨s.written, .escaped text⟩
    else if c = '"' then ⟨s.written ++ [.string text], .outside⟩
    else ⟨s.written, .inside (text.push c)⟩
  | .escaped text => ⟨s.written, .inside (text.push (if c = 't' then '\t' else c))⟩

def Scan.start : Scan := ⟨[], .outside⟩

/-- A text without the blanks outside strings, each string with its escapes resolved. -/
def bareText (cs : List Char) : List Glyph := (cs.foldl Scan.next .start).written

/-- A text without comments and the blanks outside strings; line breaks in strings are read as line
feeds. -/
def bareSource (source : String) : List Glyph :=
  bareText (plainBreaks (Comment.strip source).toList)

end Formulary

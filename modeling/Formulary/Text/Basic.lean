/-!
# Characters and positions

What is read off a text: the classes of its characters, the pieces between separators, and where a
character stands.  Names and numbers are ASCII, and so are the blanks between tokens; `isSpace`
alone is the wider white space of Unicode.

* `isNameStart`, `isNamePart`, `isBlank`, `isTermStart`, `isValueStart`: classes of characters.
* `split`: the pieces between separators; there is always one more than there are separators.
* `Position`: an offset in characters, with line and column counted from 1.
* `Position.span`: the bytes that a character occupies.
-/

namespace Formulary

/-! ## Classes of characters -/

def isNameStart (c : Char) : Bool := c.isAlpha || c = '_'

def isNamePart (c : Char) : Bool := isNameStart c || c.isDigit || c = '.' || c = '$'

def isBlank (c : Char) : Bool := c = ' ' || c = '\t' || c = '\n' || c = '\r'

def isTermStart (c : Char) : Bool :=
  isNameStart c || c.isDigit || c = '-' || c = '(' || c = '"'

/-- A character that can begin a value: an array, a section or an expression. -/
def isValueStart (c : Char) : Bool := c = '[' || c = '#' || isTermStart c

/-- White space in the sense of Unicode (the property White_Space). -/
def isSpace (c : Char) : Bool :=
  let n := c.toNat
  (0x09 ≤ n && n ≤ 0x0D) || n = 0x20 || n = 0x85 || n = 0xA0 || n = 0x1680 ||
    (0x2000 ≤ n && n ≤ 0x200A) || n = 0x2028 || n = 0x2029 || n = 0x202F || n = 0x205F ||
    n = 0x3000

theorem isSpace_of_isBlank {c : Char} (h : isBlank c) : isSpace c := by
  simp only [isBlank, Bool.or_eq_true, decide_eq_true_eq] at h
  rcases h with ((rfl | rfl) | rfl) | rfl <;> decide

/-! ## Splitting -/

/-- Puts a character in front of the first piece, or opens a new piece at a separator. -/
def splitStep (sep c : Char) : List (List Char) → List (List Char)
  | [] => if c = sep then [[], []] else [[c]]
  | piece :: pieces => if c = sep then [] :: piece :: pieces else (c :: piece) :: pieces

def split (sep : Char) (cs : List Char) : List (List Char) :=
  cs.foldr (splitStep sep) [[]]

@[simp] theorem split_nil (sep : Char) : split sep [] = [[]] := rfl

theorem split_cons (sep c : Char) (cs : List Char) :
    split sep (c :: cs) = splitStep sep c (split sep cs) := rfl

theorem split_ne_nil (sep : Char) (cs : List Char) : split sep cs ≠ [] := by
  cases cs with
  | nil => simp
  | cons c cs =>
    rw [split_cons]
    cases split sep cs <;> by_cases h : c = sep <;> simp [splitStep, h]

/-! ## Positions -/

/-- The place of a character.  The offset counts characters, not bytes. -/
structure Position where
  offset : Nat
  line : Nat
  column : Nat
  deriving DecidableEq, Repr, Inhabited

structure Span where
  start : Nat
  length : Nat
  deriving DecidableEq, Repr, Inhabited

def utf8Length (cs : List Char) : Nat := cs.foldr (fun c n => c.utf8Size + n) 0

namespace Position

def describe (p : Position) : String :=
  "line " ++ toString p.line ++ " column " ++ toString p.column

/-- The bytes of the character at this position; past the end, the empty span at the end. -/
def span (p : Position) (source : String) : Span :=
  let cs := source.toList
  match cs.drop p.offset with
  | c :: _ => ⟨utf8Length (cs.take p.offset), c.utf8Size⟩
  | [] => ⟨utf8Length cs, 0⟩

end Position

def endSpan (source : String) : Span := ⟨utf8Length source.toList, 0⟩

end Formulary

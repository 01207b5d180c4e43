/-!
# Comments

A comment runs from `//` to the end of its line, or from `/*` to the next `*/`.  Outside a quoted
string every character of a comment is blanked; line breaks stay, so that offsets, lines and columns
of the blanked text are those of the text itself.

* `Comment.Mode`: where a left-to-right reading of the text stands.
* `Comment.strip`: the text with its comments blanked.
* `Comment.Segment`, `Comment.segments`: the quoted strings, the comments and the single characters
  outside both that a text falls into, from the left.
* `Comment.Segment.blanked`: a segment with its comment blanked.
-/

namespace Formulary.Comment

/-- Where the reading stands: in plain text, after a `/` that may open a comment, in a line comment,
in a block comment, after a `*` that may close one, in a string, or after a backslash in a
string. -/
inductive Mode where
  | plain
  | slash
  | line
  | block
  | star
  | quoted
  | escaped
  deriving DecidableEq, Repr

def isBreak (c : Char) : Bool := c = '\n' || c = '\r'

/-- What stands for a character of a comment: a line break is kept, all else is a space. -/
def blank (c : Char) : Char := if isBreak c then c else ' '

def Mode.afterPlain (c : Char) : Mode :=
  if c = '/' then .slash else if c = '"' then .quoted else .plain

def Mode.next : Mode → Char → Mode
  | .plain, c => afterPlain c
  | .slash, c => if c = '/' then .line else if c = '*' then .block else afterPlain c
  | .line, c => if isBreak c then .plain else .line
  | .block, c => if c = '*' then .star else .block
  | .star, c => if c = '/' then .plain else if c = '*' then .star else .block
  | .quoted, c => if c = '\\' then .escaped else if c = '"' then .plain else .quoted
  | .escaped, _ => .quoted

/-- What the next character adds to the blanked text.  A `/` in plain text waits for the character
after it. -/
def Mode.emit : Mode → Char → List Char
  | .plain, c => if c = '/' then [] else [c]
  | .slash, c => if c = '/' ∨ c = '*' then [' ', ' '] else ['/', c]
  | .line, c | .block, c | .star, c => [blank c]
  | .quoted, c | .escaped, c => [c]

/-- What the end of the text adds: a `/` that was still waiting. -/
def Mode.close : Mode → List Char
  | .slash => ['/']
  | _ => []

structure Reading where
  mode : Mode
  written : String

def Reading.next (r : Reading) (c : Char) : Reading :=
  ⟨r.mode.next c, (r.mode.emit c).foldl String.push r.written⟩

def Reading.close (r : Reading) : String := r.mode.close.foldl String.push r.written

/-- The text with its comments blanked; a block comment that is never closed runs to the end. -/
def strip (text : String) : String :=
  (text.toList.foldl Reading.next ⟨.plain, ""⟩).close

/-! ## Segments of a text -/

inductive Segment where
  | plain (c : Char)
  /-- A string with its quotes; the closing one may be missing at the end of the text. -/
  | quoted (text : List Char)
  | comment (text : List Char)
  deriving DecidableEq, Repr

namespace Segment

def characters : Segment → List Char
  | plain c => [c]
  | quoted text => text
  | comment text => text

def blanked : Segment → List Char
  | plain c => [c]
  | quoted text => text
  | comment text => text.map blank

end Segment

/-- The rest of a string through its closing quote, and what follows; a backslash protects the
character after it. -/
def splitQuoted : List Char → List Char × List Char
  | [] => ([], [])
  | '\\' :: c :: cs => ('\\' :: c :: (splitQuoted cs).1, (splitQuoted cs).2)
  | '"' :: cs => (['"'], cs)
  | c :: cs => (c :: (splitQuoted cs).1, (splitQuoted cs).2)

def splitBlock : List Char → List Char × List Char
  | [] => ([], [])
  | '*' :: '/' :: cs => (['*', '/'], cs)
  | c :: cs => (c :: (splitBlock cs).1, (splitBlock cs).2)

theorem length_splitQuoted_le (cs : List Char) : (splitQuoted cs).2.length ≤ cs.length := by
  fun_induction splitQuoted cs <;> simp_all <;> omega

theorem length_splitBlock_le (cs : List Char) : (splitBlock cs).2.length ≤ cs.length := by
  fun_induction splitBlock cs <;> simp_all <;> omega

def segments : List Char → List Segment
  | [] => []
  | '"' :: cs => .quoted ('"' :: (splitQuoted cs).1) :: segments (splitQuoted cs).2
  | '/' :: '/' :: cs =>
    .comment ('/' :: '/' :: cs.takeWhile (!isBreak ·)) :: segments (cs.dropWhile (!isBreak ·))
  | '/' :: '*' :: cs => .comment ('/' :: '*' :: (splitBlock cs).1) :: segments (splitBlock cs).2
  | c :: cs => .plain c :: segments cs
termination_by cs => cs.length
decreasing_by
  · have := length_splitQuoted_le cs
    simp only [List.length_cons]
    omega
  · have := (List.dropWhile_sublist (p := (!isBreak ·)) (l := cs)).length_le
    simp only [List.length_cons]
    omega
  · have := length_splitBlock_le cs
    simp only [List.length_cons]
    omega
  · simp

end Formulary.Comment

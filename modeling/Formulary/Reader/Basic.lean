import Formulary.Reader.Step
import Formulary.Text.Comment

/-!
# Reading a text

The text is first *prepared*: comments are blanked, a final point is added where there is none, and
every line break becomes a line feed.  No character changes its offset.  Then the characters are
read one by one, and the position moves along.

* `prepare`: the characters that are read.
* `Reader.accept`: one character, skipped or read.
* `Tree.read`: the tree of a text, or why there is none.
-/

namespace Formulary

def defaultOperators : List String :=
  ["+", "-", "*", "/", "==", "!=", ">", "<", ">=", "<=", "&&", "||"]

/-! ## Preparation -/

/-- A carriage return before a line feed is a blank, any other one is a line feed. -/
def plainBreak (c follower : Char) : Char :=
  if c = '\r' then (if follower = '\n' then ' ' else '\n') else c

def plainBreaks (cs : List Char) : List Char := List.zipWith plainBreak cs (cs.tail ++ [' '])

def endsWithPoint (cs : List Char) : Bool := cs.reverse.find? (!isSpace ·) == some '.'

/-- The characters to read, and whether the final point was added to them. -/
def prepare (source : String) : List Char × Bool :=
  let cs := (Comment.strip source).toList
  if endsWithPoint cs then (plainBreaks cs, false) else (plainBreaks (cs ++ ['.']), true)

/-! ## Reading -/

namespace Reader

def advance (r : Reader) (c : Char) : Reader :=
  let p := r.cursor
  { r with
    cursor := if c = '\n' then ⟨p.offset, p.line + 1, 0⟩ else ⟨p.offset, p.line, p.column + 1⟩ }

def pass (r : Reader) : Reader :=
  { r with cursor := { r.cursor with offset := r.cursor.offset + 1 } }

/-- Reads the next character; blanks outside strings are skipped, but leave a trace. -/
def accept (r : Reader) (c : Char) : Except ParseError Reader :=
  let r := r.advance c
  if !r.phase.inString && isBlank c then .ok { r with afterBlank := true }.pass
  else match r.step c with
    | .ok r => .ok { r with afterBlank := false }.pass
    | .error e => .error e

/-- The failure of a text after its last character, if its root section is not closed. -/
def finish (r : Reader) : Except ParseError Tree :=
  match r.phase with
  | .final => .ok r.tree
  | .string | .stringEscape => .error ⟨.unterminatedString, r.cursor⟩
  | _ => .error ⟨.unexpectedEnd, r.cursor⟩

/-- A final point that was added and does not fit means that the text ended too early. -/
def blame (added : Bool) (rest : List Char) (e : ParseError) : ParseError :=
  match e.fault with
  | .unexpected _ => if added && rest.isEmpty then { e with fault := .unexpectedEnd } else e
  | _ => e

/-- Reads the remaining characters; `added` says whether the last of them was added. -/
def run (added : Bool) : Reader → List Char → Except ParseError Tree
  | r, [] => r.finish
  | r, c :: cs =>
    match r.accept c with
    | .ok r => run added r cs
    | .error e => .error (blame added cs e)

end Reader

def Tree.read (source : String) (operators : List String) (filename : Option String) :
    Except ParseError Tree :=
  let (cs, added) := prepare source
  (Reader.initial operators filename source).run added cs

end Formulary

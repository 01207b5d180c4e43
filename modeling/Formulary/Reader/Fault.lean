import Formulary.Text.Basic
import Formulary.Text.Escape

/-!
# Why a text cannot be read

A `ParseError` is a fault and its place.  Everything shown about it is computed from these two and
the text: the message, the advice, the label and the listing of the text with a caret under the
failing column.

* `Fault`: the faults, with `Fault.message`, `Fault.help`, `Fault.token`, `Fault.code`.
* `listing`: a numbered listing of a text with a caret.
-/

namespace Formulary

inductive Fault where
  /-- A character that nothing allows where it stands. -/
  | unexpected (c : Char)
  /-- A character after a backslash in a string that makes no escape. -/
  | badEscape (c : Char)
  /-- An operator that is not registered, read up to the character `found`. -/
  | unknownOperator (text : String) (registered : List String) (found : Char)
  /-- The text ends inside a string. -/
  | unterminatedString
  /-- The text ends before its root section is closed. -/
  | unexpectedEnd
  deriving DecidableEq, Repr

namespace Fault

/-- Whether the text is wrong rather than too short. -/
def isSyntax : Fault → Bool
  | unexpectedEnd => false
  | _ => true

def message : Fault → String
  | unexpected c => "syntax error, unexpected character '" ++ Escape.char c ++ "'"
  | badEscape c => "invalid escape sequence '\\" ++ Escape.char c ++ "'"
  | unknownOperator text _ _ => "unknown operator '" ++ text ++ "'"
  | unterminatedString => "unterminated string literal"
  | unexpectedEnd => "unexpected end of script"

def help : Fault → String
  | unexpected c => "remove or correct the character `" ++ Escape.char c ++ "`"
  | badEscape _ => "only `\\\"`, `\\\\` and `\\t` are recognized"
  | unknownOperator _ registered _ =>
    "registered operators: " ++ String.intercalate " " registered
  | unterminatedString => "add the missing trailing `\"`"
  | unexpectedEnd => "The notation ended unexpectedly, possibly due to a missing closing brace, " ++
    "bracket or `;`."

def token : Fault → Option Char
  | unexpected c | badEscape c | unknownOperator _ _ c => some c
  | unterminatedString | unexpectedEnd => none

def code (f : Fault) : String := if f.isSyntax then "notation::syntax" else "notation::eof"

end Fault

structure ParseError where
  fault : Fault
  position : Position
  deriving DecidableEq, Repr

/-! ## Listings -/

/-- A number in a field of three characters, aligned on the right. -/
def lineNumber (n : Nat) : String :=
  let digits := toString n
  String.ofList (List.replicate (3 - digits.length) ' ') ++ digits

def listingLine (number : Nat) (line : List Char) : String :=
  lineNumber number ++ ": " ++ String.ofList line ++ "\n"

def caretLine (column : Nat) : String :=
  "     " ++ String.ofList (List.replicate (column - 1) '-') ++ "^\n"

/-- A carriage return and a tab are listed as one space. -/
def listedChar (c : Char) : Char := if c = '\r' ∨ c = '\t' then ' ' else c

/-- The lines of a text as they are listed; a final line break opens no further line. -/
def listedLines (source : String) : List (List Char) :=
  let lines := split '\n' (source.toList.map listedChar)
  if lines.length > 1 ∧ lines.getLast? = some [] then lines.dropLast else lines

/-- The lines of a text, numbered from `number` on, with the caret after the line it belongs to. -/
def numberedLines (position : Position) (number : Nat) (lines : List (List Char)) : List String :=
  (lines.zipIdx number).flatMap fun (line, n) =>
    if n = position.line then [listingLine n line, caretLine position.column]
    else [listingLine n line]

/-- The empty lines up to a position after the last line, and the caret there. -/
def trailingLines (position : Position) (count : Nat) : List String :=
  if position.line > count then
    (List.range' (count + 1) (position.line - count)).map (listingLine · []) ++
      [caretLine position.column]
  else []

/-- A text line by line, with a message on top and a caret under the column of the position. -/
def listing (source message : String) (position : Position) : String :=
  let lines := listedLines source
  "PARSER ERROR:\n\t'" ++ message ++ "'\n\tat line " ++ toString position.line ++ " and column " ++
    toString position.column ++ ".\n" ++
    String.join (numberedLines position 1 lines ++ trailingLines position lines.length)

namespace ParseError

def message (e : ParseError) : String := e.fault.message

def listing (e : ParseError) (source : String) : String :=
  Formulary.listing source e.message e.position

/-- What the label points at, and the bytes that it marks. -/
def label (e : ParseError) (source : String) : String × Span :=
  if e.fault.isSyntax then ("here", e.position.span source)
  else ("input ends here", endSpan source)

end ParseError

end Formulary

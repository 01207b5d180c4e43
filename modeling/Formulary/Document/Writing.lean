import Formulary.Document.Basic

/-!
# Writing documents

A document is written as a row of lexemes with gaps between them.  A lexeme has few spellings; a gap
is any white space and comments.

* `Lexeme`, `Document.lexemes`: the words of a document.
* `Lexeme.Spelled`, `Gap`, `Document.Written`: the texts of a document.
* `Document.write`: one of them.
-/

namespace Formulary

/-- A word of a text: a mark, a name, number or operator, or a string. -/
inductive Lexeme where
  | mark (c : Char)
  | word (text : String)
  | quoted (text : String)
  deriving DecidableEq, Repr

/-! ## The words of a document -/

def commas : List (List Lexeme) → List Lexeme
  | [] => []
  | [part] => part
  | part :: parts => part ++ .mark ',' :: commas parts

mutual

def Term.lexemes : Term → List Lexeme
  | .number text => [.word text]
  | .string text => [.quoted text]
  | .name text => [.word text]
  | .call function arguments =>
    .word function :: .mark '(' :: (commas (Formula.lexemeLists arguments) ++ [.mark ')'])
  | .paren inside => .mark '(' :: (inside.lexemes ++ [.mark ')'])

def Formula.lexemes : Formula → List Lexeme
  | .term t => t.lexemes
  | .operate left operator right => left.lexemes ++ .word operator :: right.lexemes

def Formula.lexemeLists : List Formula → List (List Lexeme)
  | [] => []
  | f :: fs => f.lexemes :: Formula.lexemeLists fs

end

def sectionLexemes (title : String) (members : List Lexeme) : List Lexeme :=
  .mark '#' :: .word title :: .mark '{' :: (members ++ [.mark '}'])

mutual

def Entry.lexemes : Entry → List Lexeme
  | .sect title members => sectionLexemes title (Binding.allLexemes members)
  | .array items => .mark '[' :: (commas (Entry.lexemeLists items) ++ [.mark ']'])
  | .formula f => f.lexemes

def Entry.lexemeLists : List Entry → List (List Lexeme)
  | [] => []
  | e :: es => e.lexemes :: Entry.lexemeLists es

/-- The words of a member, with the mark that ends it. -/
def Binding.lexemes : Binding → List Lexeme
  | .mk name entry => .word name :: .mark '=' :: (entry.lexemes ++ [.mark ';'])

def Binding.allLexemes : List Binding → List Lexeme
  | [] => []
  | m :: ms => m.lexemes ++ Binding.allLexemes ms

end

/-- The words of a document, without the final point. -/
def Document.lexemes (d : Document) : List Lexeme :=
  sectionLexemes d.title (Binding.allLexemes d.members)

/-! ## Spellings -/

/-- The spellings of a character in a string: quotes and backslashes take a backslash, and a tab may
be written as `\t`. -/
inductive SpelledChar : Char → List Char → Prop where
  | quote : SpelledChar '"' ['\\', '"']
  | backslash : SpelledChar '\\' ['\\', '\\']
  | tab : SpelledChar '\t' ['\\', 't']
  | plain {c : Char} : c ≠ '"' → c ≠ '\\' → SpelledChar c [c]

inductive SpelledChars : List Char → List Char → Prop where
  | nil : SpelledChars [] []
  | cons {c : Char} {cs spelled rest : List Char} : SpelledChar c spelled → SpelledChars cs rest →
      SpelledChars (c :: cs) (spelled ++ rest)

inductive Lexeme.Spelled : Lexeme → List Char → Prop where
  | mark {c : Char} : Spelled (.mark c) [c]
  | word {text : String} : Spelled (.word text) text.toList
  | quoted {text : String} {spelled : List Char} : SpelledChars text.toList spelled →
      Spelled (.quoted text) ('"' :: (spelled ++ ['"']))

/-! ## Gaps -/

inductive LineComment : List Char → Prop where
  | mk {text : List Char} {brk : Char} : (∀ c ∈ text, c ≠ '\n' ∧ c ≠ '\r') →
      brk = '\n' ∨ brk = '\r' → LineComment ('/' :: '/' :: (text ++ [brk]))

/-- A block comment, which ends where its text first allows it. -/
inductive BlockComment : List Char → Prop where
  | mk {text : List Char} : ¬ ['*', '/'] <:+: text →
      BlockComment ('/' :: '*' :: (text ++ ['*', '/']))

/-- Blanks and comments in any order. -/
inductive Filler : List Char → Prop where
  | nil : Filler []
  | blank {c : Char} {cs : List Char} : isBlank c → Filler cs → Filler (c :: cs)
  | comment {text cs : List Char} : LineComment text ∨ BlockComment text → Filler cs →
      Filler (text ++ cs)

/-- A gap between two words begins with a blank. -/
inductive Gap : List Char → Prop where
  | mk {c : Char} {cs : List Char} : isBlank c → Filler cs → Gap (c :: cs)

/-! ## Texts -/

inductive WrittenLexemes : List Lexeme → List Char → Prop where
  | single {l : Lexeme} {cs : List Char} : l.Spelled cs → WrittenLexemes [l] cs
  | cons {l : Lexeme} {ls : List Lexeme} {cs gap rest : List Char} : l.Spelled cs → Gap gap →
      WrittenLexemes ls rest → WrittenLexemes (l :: ls) (cs ++ (gap ++ rest))

/-- The texts of a document: its words with gaps between them, perhaps with a final point after one
more gap, and any filler at either end. -/
inductive Document.Written (d : Document) : List Char → Prop where
  | plain {before text after : List Char} : Filler before → WrittenLexemes d.lexemes text →
      Filler after → Written d (before ++ (text ++ after))
  | pointed {before text after : List Char} : Filler before →
      WrittenLexemes (d.lexemes ++ [.mark '.']) text → Filler after →
      Written d (before ++ (text ++ after))

/-! ## One text of a document -/

def writeChar (c : Char) : List Char :=
  if c = '"' ∨ c = '\\' then ['\\', c] else [c]

/-- A word in its plainest spelling. -/
def Lexeme.write : Lexeme → List Char
  | .mark c => [c]
  | .word text => text.toList
  | .quoted text => '"' :: (text.toList.flatMap writeChar ++ ['"'])

def writeLexemes : List Lexeme → List Char
  | [] => []
  | [l] => l.write
  | l :: ls => l.write ++ ' ' :: writeLexemes ls

def Document.write (d : Document) : String := String.ofList (writeLexemes d.lexemes)

end Formulary

import Formulary.Text.Basic
import Formulary.Tree.Outline

/-!
# Documents

A document is what a text means, apart from its layout: a titled root section of named entries, each
of them a section, an array or a formula.

* `Term`, `Formula`, `Entry`, `Binding`, `Document`.
* `Document.Valid`: names, numbers and operators are well formed.
* `Document.outline`: the outline of a tree that shows the document.
-/

namespace Formulary

mutual

inductive Term where
  | number (text : String)
  | string (text : String)
  | name (text : String)
  | call (function : String) (arguments : List Formula)
  | paren (inside : Formula)

inductive Formula where
  | term (t : Term)
  | operate (left : Formula) (operator : String) (right : Term)

end

mutual

/-- A section with its title, an array, or a formula. -/
inductive Entry where
  | sect (title : String) (members : List Binding)
  | array (items : List Entry)
  | formula (f : Formula)

inductive Binding where
  | mk (name : String) (entry : Entry)

end

structure Document where
  title : String
  members : List Binding

/-! ## Well-formed parts -/

/-- A name: a letter or an underscore, and then letters, digits, underscores, points and dollars. -/
def isName : List Char → Bool
  | [] => false
  | c :: cs => isNameStart c && cs.all isNamePart

/-- Digits, and perhaps a point and more digits. -/
def isUnsignedNumber (cs : List Char) : Bool :=
  let (whole, rest) := cs.span Char.isDigit
  whole ≠ [] &&
    match rest with
    | [] => true
    | c :: decimals => c = '.' && decimals ≠ [] && decimals.all Char.isDigit

/-- A number, perhaps with a minus in front. -/
def isNumber : List Char → Bool
  | '-' :: cs => isUnsignedNumber cs
  | cs => isUnsignedNumber cs

mutual

/-- The names, numbers and operators of a term are well formed, and no string holds a carriage
return. -/
def Term.valid (operators : List String) : Term → Bool
  | .number text => isNumber text.toList
  | .string text => text.toList.all (· ≠ '\r')
  | .name text => isName text.toList
  | .call function arguments => isName function.toList && Formula.allValid operators arguments
  | .paren inside => inside.valid operators

def Formula.valid (operators : List String) : Formula → Bool
  | .term t => t.valid operators
  | .operate left operator right =>
    left.valid operators && operators.contains operator && right.valid operators

def Formula.allValid (operators : List String) : List Formula → Bool
  | [] => true
  | f :: fs => f.valid operators && Formula.allValid operators fs

end

mutual

def Entry.valid (operators : List String) : Entry → Bool
  | .sect title members => isName title.toList && Binding.allValid operators members
  | .array items => Entry.allValid operators items
  | .formula f => f.valid operators

def Entry.allValid (operators : List String) : List Entry → Bool
  | [] => true
  | e :: es => e.valid operators && Entry.allValid operators es

def Binding.valid (operators : List String) : Binding → Bool
  | .mk name entry => isName name.toList && entry.valid operators

def Binding.allValid (operators : List String) : List Binding → Bool
  | [] => true
  | m :: ms => m.valid operators && Binding.allValid operators ms

end

def Document.valid (operators : List String) (d : Document) : Bool :=
  isName d.title.toList && Binding.allValid operators d.members

/-! ## Outlines -/

def ElementOutline.leaf (kind : ElementKind) (text : String) : ElementOutline := .mk kind text []

/-- The outline of a call.  A call without arguments has one empty wrapper. -/
def ElementOutline.call (function : String) (rows : List (List ElementOutline)) : ElementOutline :=
  .mk .function function
    ((if rows.isEmpty then [[]] else rows).map (ElementOutline.mk .argument ""))

mutual

def Term.row : Term → List ElementOutline
  | .number text => [.leaf .number text]
  | .string text => [.leaf .string text]
  | .name text => [.leaf .identifier text]
  | .call function arguments => [.call function (Formula.rows arguments)]
  | .paren inside => .leaf .symbol "(" :: (inside.row ++ [.leaf .symbol ")"])

def Formula.row : Formula → List ElementOutline
  | .term t => t.row
  | .operate left operator right => left.row ++ .leaf .operator operator :: right.row

def Formula.rows : List Formula → List (List ElementOutline)
  | [] => []
  | f :: fs => f.row :: Formula.rows fs

end

mutual

def Entry.outline (name : Option String) : Entry → EntityOutline
  | .sect title members => .sect name (some title) (Binding.outlines members)
  | .array items => .array name (Entry.outlines items)
  | .formula f => .expression name f.row

def Entry.outlines : List Entry → List EntityOutline
  | [] => []
  | e :: es => e.outline none :: Entry.outlines es

def Binding.outline : Binding → EntityOutline
  | .mk name entry => entry.outline (some name)

def Binding.outlines : List Binding → List EntityOutline
  | [] => []
  | m :: ms => m.outline :: Binding.outlines ms

end

def Document.outline (d : Document) : EntityOutline :=
  .sect none (some d.title) (Binding.outlines d.members)

end Formulary

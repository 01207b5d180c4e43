import Formulary.Reader.Fault
import Formulary.Text.Basic
import Formulary.Tree.Basic

/-!
# The state of a reading

A text is read from left to right, one character at a time.  The state holds what has been read as a
tree, the phase that says what may come next, the token under way, and where in the tree the reading
stands.  Nesting is not kept on a stack: the parents of the current entity and the current element
lead out again, and counters say what is still open.

* `Phase`: what the last token was.
* `Reader`: the state, with its elementary changes.
-/

namespace Formulary

/-- What has been read last, and so what may come next. -/
inductive Phase where
  /-- Nothing has been read. -/
  | start
  /-- After the `#` of a section. -/
  | sectionMark
  | sectionTitle
  | sectionOpen
  | sectionClose
  | memberName
  /-- After the `=` of a member. -/
  | memberEquals
  | arrayOpen
  | arrayComma
  | arrayClose
  | parenOpen
  | parenClose
  | string
  /-- After a backslash in a string. -/
  | stringEscape
  | stringEnd
  /-- After a minus that begins a number. -/
  | minus
  | number
  /-- After the point of a number. -/
  | numberPoint
  | numberFraction
  | operator
  | identifier
  | callOpen
  | callComma
  /-- After the `;` that ends a member. -/
  | memberEnd
  /-- After the final point. -/
  | final
  deriving DecidableEq, Repr, Inhabited

namespace Phase

def endsOperand : Phase → Bool
  | number | numberFraction | identifier | parenClose | stringEnd => true
  | _ => false

def inString : Phase → Bool
  | string | stringEscape => true
  | _ => false

end Phase

/-- The state of a reading.  `current` is the innermost entity that is still open, `element` the
element that the next token goes under, and `cursor` the place of the character being read. -/
structure Reader where
  operators : List String
  tree : Tree
  phase : Phase
  cursor : Position
  /-- Blanks stand directly before the character being read. -/
  afterBlank : Bool
  token : String
  tokenStart : Position
  memberName : Option String
  current : EntityId
  element : Option ElementId
  openArrays : Nat
  openSections : Nat
  deriving Inhabited

namespace Reader

def initial (operators : List String) (filename : Option String) (source : String) : Reader where
  operators := operators
  tree := Tree.blank filename source
  phase := .start
  cursor := ⟨0, 1, 0⟩
  afterBlank := false
  token := ""
  tokenStart := ⟨0, 0, 0⟩
  memberName := none
  current := Tree.root
  element := none
  openArrays := 0
  openSections := 0

/-! ## Tokens -/

def enter (r : Reader) (phase : Phase) : Reader := { r with phase := phase }

def beginToken (r : Reader) (c : Char) : Reader :=
  { r with token := String.singleton c, tokenStart := r.cursor }

def extendToken (r : Reader) (c : Char) : Reader := { r with token := r.token.push c }

def addElement (r : Reader) (kind : ElementKind) (text : String) (position : Position) : Reader :=
  match r.element with
  | some parent => { r with tree := r.tree.addElement parent kind text position }
  | none => r

def flush (r : Reader) (kind : ElementKind) : Reader :=
  { r.addElement kind r.token r.tokenStart with token := "" }

/-! ## Operators -/

/-- Some registered operator begins with these characters. -/
def beginsOperator (r : Reader) (cs : List Char) : Bool :=
  r.operators.any fun op => cs.isPrefixOf op.toList

def operatorStarts (r : Reader) (c : Char) : Bool := r.beginsOperator [c]

def operatorExtends (r : Reader) (c : Char) : Bool := r.beginsOperator (r.token.toList ++ [c])

/-! ## Entities -/

def entity (r : Reader) : Entity := r.tree.entity r.current

def leave (r : Reader) : Reader :=
  match r.entity.parent with
  | some parent => { r with current := parent }
  | none => r

/-- Opens a section or an array at the cursor, bound to the pending member name. -/
def openEntity (r : Reader) (content : Content) : Reader :=
  let id := r.tree.entities.size
  { r with
    tree := r.tree.addEntity r.memberName r.current r.cursor content
    memberName := none
    current := id }

def openExpression (r : Reader) : Reader :=
  let id := r.tree.entities.size
  let root := r.tree.elements.size
  { r with
    tree := r.tree.addExpression r.memberName r.current r.cursor
    memberName := none
    current := id
    element := some root }

def openArray (r : Reader) : Reader :=
  { r.openEntity (.array #[]) with openArrays := r.openArrays + 1 }

def closeArray (r : Reader) : Reader := { r.leave with openArrays := r.openArrays - 1 }

/-- Gives the current section its title, at its brace. -/
def openSection (r : Reader) : Reader :=
  let title := r.token
  { r with
    tree := r.tree.modifyEntity r.current fun e =>
      match e.content with
      | .sect _ members => { e with content := .sect (some title) members }
      | _ => e
    token := ""
    openSections := r.openSections + 1 }

/-- Leaves the current section; the root section has nothing around it. -/
def closeSection (r : Reader) : Reader := { r.leave with openSections := r.openSections - 1 }

/-! ## Parentheses and calls -/

/-- Changes the count of open parentheses of an element and of the current expression. -/
def adjustParens (r : Reader) (id : ElementId) (f : Nat → Nat) : Reader :=
  let tree := r.tree.modifyElement id fun e => { e with openParens := f e.openParens }
  { r with
    tree := tree.modifyEntity r.current fun e =>
      match e.content with
      | .expression root openParens => { e with content := .expression root (f openParens) }
      | _ => e }

def openParen (r : Reader) : Reader :=
  match r.element with
  | some id => (r.adjustParens id (· + 1)).addElement .symbol "(" r.cursor
  | none => r

def closeParen (r : Reader) : Reader :=
  match r.element with
  | some id => (r.addElement .symbol ")" r.cursor).adjustParens id (· - 1)
  | none => r

/-- Makes the token a call and goes on under its first argument. -/
def openCall (r : Reader) : Reader :=
  match r.element with
  | some id =>
    let call := r.tree.elements.size
    let r := (r.adjustParens id (· + 1)).flush .function
    { r with
      tree := r.tree.addElement call .argument "" r.cursor
      element := some (call + 1) }
  | none => r

def nextArgument (r : Reader) : Reader :=
  match r.element.bind fun id => (r.tree.element id).parent with
  | some call =>
    let id := r.tree.elements.size
    { r with
      tree := r.tree.addElement call .argument "" r.cursor
      element := some id }
  | none => r

/-- Goes on under the element that holds the call, out of its argument. -/
def closeCall (r : Reader) : Reader :=
  match (r.element.bind fun id => (r.tree.element id).parent).bind
      fun id => (r.tree.element id).parent with
  | some outer => { r with element := some outer }.adjustParens outer (· - 1)
  | none => r

end Reader

end Formulary

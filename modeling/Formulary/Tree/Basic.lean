import Formulary.Text.Basic

/-!
# Trees

A text that has been read is a tree of two tables in the order of creation: *entities* (sections,
arrays and expressions) and *elements* (the tokens, calls and argument wrappers of expressions).
A node is named by its place in its table; parents come before their children.

* `Entity`, `Element`: the nodes.
* `Tree`: the tables, with the text they were read from.
* `Tree.member?`, `Tree.find?`: look-up by name and by dotted path.
-/

namespace Formulary

abbrev EntityId := Nat

abbrev ElementId := Nat

/-! ## Elements -/

inductive ElementKind where
  | symbol
  | string
  | number
  | identifier
  | function
  | argument
  | operator
  | node
  deriving DecidableEq, Repr, Inhabited

namespace ElementKind

def all : List ElementKind :=
  [symbol, string, number, identifier, function, argument, operator, node]

def label : ElementKind → String
  | symbol => "SYMBOL"
  | string => "STRING"
  | number => "NUMBER"
  | identifier => "IDENTIFIER"
  | function => "FUNCTION"
  | argument => "ARGUMENT"
  | operator => "OPERATOR"
  | node => "NODE"

def describe : ElementKind → String
  | symbol => "a symbol"
  | string => "a string"
  | number => "a number"
  | identifier => "an identifier"
  | function => "a function"
  | argument => "a function argument"
  | operator => "an operator"
  | node => "an expression"

/-- An operand yields a value of its own; operators and parentheses combine operands. -/
def isOperand : ElementKind → Bool
  | number | string | identifier | function | node => true
  | symbol | argument | operator => false

end ElementKind

/-- A node of an expression: a token, a call, the wrapper of an argument, or the root of the
expression.  `openParens` counts the parentheses directly under it that are not closed yet. -/
structure Element where
  kind : ElementKind
  text : String
  children : Array ElementId
  openParens : Nat
  parent : Option ElementId
  expression : EntityId
  position : Position
  deriving Inhabited, DecidableEq

/-! ## Entities -/

/-- What an entity holds.  `openParens` of an expression sums those of its elements. -/
inductive Content where
  /-- A section, with the title after its `#`. -/
  | sect (title : Option String) (members : Array EntityId)
  | array (items : Array EntityId)
  | expression (root : ElementId) (openParens : Nat)
  deriving Inhabited, DecidableEq

namespace Content

def isSection : Content → Bool
  | sect _ _ => true
  | _ => false

def isArray : Content → Bool
  | array _ => true
  | _ => false

def isExpression : Content → Bool
  | expression _ _ => true
  | _ => false

def children : Content → Array EntityId
  | sect _ members => members
  | array items => items
  | expression _ _ => #[]

def attach (child : EntityId) : Content → Content
  | sect title members => sect title (members.push child)
  | array items => array (items.push child)
  | expression root openParens => expression root openParens

end Content

/-- A section, an array or an expression.  `name` is the member name that it is bound to. -/
structure Entity where
  name : Option String
  parent : Option EntityId
  position : Position
  content : Content
  deriving Inhabited, DecidableEq

/-! ## Trees -/

structure NamedText where
  name : String
  text : String
  deriving DecidableEq, Repr

/-- The nodes of a text, with the text itself and the name of its file. -/
structure Tree where
  filename : Option String
  source : String
  entities : Array Entity
  elements : Array Element
  deriving Inhabited, DecidableEq

namespace Tree

def root : EntityId := 0

/-- The tree of a text of which nothing has been read: an untitled root section. -/
def blank (filename : Option String) (source : String) : Tree where
  filename := filename
  source := source
  entities := #[⟨none, none, ⟨0, 1, 1⟩, .sect none #[]⟩]
  elements := #[]

/-- The text that the tree was read from, under the name that messages give it. -/
def namedText (tree : Tree) : NamedText := ⟨tree.filename.getD "<input>", tree.source⟩

/-- The entity with this number; every number that a tree holds is in its table. -/
def entity (tree : Tree) (id : EntityId) : Entity := tree.entities.getD id default

def element (tree : Tree) (id : ElementId) : Element := tree.elements.getD id default

/-! ### Growth -/

def addEntity (tree : Tree) (name : Option String) (parent : EntityId) (position : Position)
    (content : Content) : Tree :=
  let id := tree.entities.size
  { tree with
    entities := (tree.entities.push ⟨name, some parent, position, content⟩).modify parent
      fun e => { e with content := e.content.attach id } }

def addElement (tree : Tree) (parent : ElementId) (kind : ElementKind) (text : String)
    (position : Position) : Tree :=
  let id := tree.elements.size
  let expression := (tree.element parent).expression
  { tree with
    elements := (tree.elements.push ⟨kind, text, #[], 0, some parent, expression, position⟩).modify
      parent fun e => { e with children := e.children.push id } }

def addExpression (tree : Tree) (name : Option String) (parent : EntityId) (position : Position) :
    Tree :=
  let id := tree.elements.size
  let node : Element := ⟨.node, "", #[], 0, none, tree.entities.size, position⟩
  addEntity { tree with elements := tree.elements.push node } name parent position
    (.expression id 0)

def modifyEntity (tree : Tree) (id : EntityId) (f : Entity → Entity) : Tree :=
  { tree with entities := tree.entities.modify id f }

def modifyElement (tree : Tree) (id : ElementId) (f : Element → Element) : Tree :=
  { tree with elements := tree.elements.modify id f }

/-! ### Look-up -/

/-- The first member of a section that is bound to `name`. -/
def member? (tree : Tree) (id : EntityId) (name : String) : Option EntityId :=
  match (tree.entity id).content with
  | .sect _ members => members.toList.find? fun m => (tree.entity m).name == some name
  | _ => none

def pathNames (path : String) : List String := (split '.' path.toList).map String.ofList

/-- The entity that a dotted path leads to, from the root section on. -/
def find? (tree : Tree) (path : String) : Option EntityId :=
  (pathNames path).foldlM tree.member? root

end Tree

end Formulary

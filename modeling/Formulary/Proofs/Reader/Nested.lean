import Formulary.Proofs.Reader.Nest
import Formulary.Reader.Basic

/-!
# Reading with a nest

The reading of a text, said over nests instead of tables: what is open is at hand, so that nothing
is looked up, and the failures are not told apart.  It goes through the same phases as
`Reader.step`, character by character.

* `Nested`: the state.
* `Nested.step`: one character that is not skipped.
* `Nested.accept`, `Nested.read`: one character, and some of them.
-/

namespace Formulary

/-! ## Changes of a nest -/

namespace Nest

def addLeaf (kind : ElementKind) (text : String) : Nest → Nest
  | row e es name f => row e es name (f.add [.leaf kind text])
  | n => n

def close (e : OpenEntity) : List OpenEntity → Nest
  | [] => done e.outline
  | e' :: es => entity (e'.add e.outline) es

end Nest

/-! ## The state -/

/-- The state of a reading over a nest. -/
structure Nested where
  phase : Phase
  nest : Nest
  afterBlank : Bool
  token : String
  memberName : Option String

namespace Nested

def initial : Nested := ⟨.start, .entity (.sect none none []) [], false, "", none⟩

def enter (s : Nested) (p : Phase) : Nested := { s with phase := p }

def beginToken (s : Nested) (c : Char) : Nested := { s with token := String.singleton c }

def extendToken (s : Nested) (c : Char) : Nested := { s with token := s.token.push c }

def flush (s : Nested) (kind : ElementKind) : Nested :=
  { s with nest := s.nest.addLeaf kind s.token, token := "" }

/-! ## The end of a value -/

def flushOperand (s : Nested) : Nested :=
  match s.phase with
  | .number | .numberFraction => s.flush .number
  | .identifier => s.flush .identifier
  | _ => s

def endsExpression (e : OpenEntity) (f : OpenFormula) (c : Char) : Bool :=
  f.depth = 0 && (c = ';' || c = ']' || (c = ',' && e.isArray))

def leaveExpression (s : Nested) (c : Char) : Nested :=
  match s.nest with
  | .row e es name f =>
    if s.phase.endsOperand && endsExpression e f c then
      { s with nest := .entity (e.add (.expression name f.inner.row)) es }
    else s
  | _ => s

/-- Reads a closing parenthesis: that of the innermost row or that of the call around it. -/
def closeParen (s : Nested) (e : OpenEntity) (es : List OpenEntity) (name : Option String) :
    OpenFormula → Option Nested
  | ⟨⟨row, parens + 1⟩, outer⟩ =>
    some { s with
      nest := .row e es name ⟨⟨row ++ [.leaf .symbol ")"], parens⟩, outer⟩, phase := .parenClose }
  | ⟨⟨row, 0⟩, (c, o) :: outer⟩ =>
    some { s with
      nest := .row e es name ⟨⟨o.row ++ [c.outline row], o.parens⟩, outer⟩, phase := .parenClose }
  | ⟨⟨_, 0⟩, []⟩ => none

def separate (s : Nested) (c : Char) : Option Nested :=
  match s.nest with
  | .entity (.sect _ _ _) _ => if c = ';' then some (s.enter .memberEnd) else none
  | .entity (.array name items) es =>
    if c = ',' then some (s.enter .arrayComma)
    else if c = ']' then
      some { s with nest := .close (.array name items) es, phase := .arrayClose }
    else none
  | .row e es name f =>
    if c = ',' ∧ f.outer ≠ [] ∧ f.inner.parens = 0 then some (s.enter .callComma)
    else if c = ')' then s.closeParen e es name f
    else none
  | .done _ => none

def afterValue (s : Nested) (c : Char) : Option Nested :=
  if c = ',' ∨ c = ';' ∨ c = ']' ∨ c = ')' then (s.flushOperand.leaveExpression c).separate c
  else none

def afterTerm (ops : List String) (s : Nested) (c : Char) : Option Nested :=
  if ops.any fun op => [c].isPrefixOf op.toList then some ((s.beginToken c).enter .operator)
  else s.afterValue c

def afterToken (ops : List String) (s : Nested) (kind : ElementKind) (c : Char) : Option Nested :=
  if ops.any fun op => [c].isPrefixOf op.toList then
    some (((s.flush kind).beginToken c).enter .operator)
  else s.afterValue c

/-! ## The start of a value -/

def placeTerm (ops : List String) (s : Nested) : Option Nested :=
  if s.phase = .operator then
    if ops.contains s.token then some (s.flush .operator) else none
  else
    match s.nest with
    | .entity e es =>
      some { s with nest := .row e es s.memberName OpenFormula.blank, memberName := none }
    | .row e es name ⟨i, (c, o) :: outer⟩ =>
      if s.phase = .callComma then
        some { s with
          nest := .row e es name ⟨⟨[], 0⟩, (⟨c.name, c.done ++ [i.row]⟩, o) :: outer⟩ }
      else some s
    | _ => some s

def beginTerm (s : Nested) (c : Char) : Option Nested :=
  if c = '(' then
    match s.nest with
    | .row e es name ⟨⟨row, parens⟩, outer⟩ =>
      some { s with
        nest := .row e es name ⟨⟨row ++ [.leaf .symbol "("], parens + 1⟩, outer⟩
        phase := .parenOpen }
    | _ => none
  else if c = '"' then some { s with token := "", phase := .string }
  else if c = '-' then some ((s.beginToken c).enter .minus)
  else if c.isDigit then some ((s.beginToken c).enter .number)
  else if isNameStart c then some ((s.beginToken c).enter .identifier)
  else none

def startTerm (ops : List String) (s : Nested) (c : Char) : Option Nested :=
  if isTermStart c then (s.placeTerm ops).bind (·.beginTerm c) else none

def startValue (ops : List String) (s : Nested) (c : Char) : Option Nested :=
  match s.nest with
  | .entity e es =>
    if c = '[' then
      some ⟨.arrayOpen, .entity (.array s.memberName []) (e :: es), s.afterBlank, s.token, none⟩
    else if c = '#' then
      some ⟨.sectionMark, .entity (.sect s.memberName none []) (e :: es), s.afterBlank, s.token,
        none⟩
    else s.startTerm ops c
  | _ => none

/-! ## Sections and calls -/

def startMember (s : Nested) (c : Char) : Option Nested :=
  match s.nest with
  | .entity e es =>
    if c = '}' then some { s with nest := .close e es, phase := .sectionClose }
    else if isNameStart c then some ((s.beginToken c).enter .memberName)
    else none
  | _ => none

def afterSection (s : Nested) (c : Char) : Option Nested :=
  match s.nest with
  | .done _ => if c = '.' then some (s.enter .final) else none
  | _ => s.afterValue c

def openSection (s : Nested) : Option Nested :=
  match s.nest with
  | .entity (.sect name none ms) es =>
    some { s with
      nest := .entity (.sect name (some s.token) ms) es, token := "", phase := .sectionOpen }
  | _ => none

def openCall (s : Nested) : Option Nested :=
  match s.nest with
  | .row e es name ⟨i, outer⟩ =>
    some { s with
      nest := .row e es name ⟨⟨[], 0⟩, (⟨s.token, []⟩, i) :: outer⟩, token := ""
      phase := .callOpen }
  | _ => none

/-! ## The step -/

def unescape (s : Nested) (c : Char) : Option Nested :=
  if c = '"' ∨ c = '\\' then some ((s.extendToken c).enter .string)
  else if c = 't' then some ((s.extendToken '\t').enter .string)
  else none

def step (ops : List String) (s : Nested) (c : Char) : Option Nested :=
  match s.phase with
  | .start => if c = '#' then some (s.enter .sectionMark) else none
  | .sectionMark =>
    if isNameStart c then some ((s.beginToken c).enter .sectionTitle) else none
  | .sectionTitle =>
    if !s.afterBlank && isNamePart c then some (s.extendToken c)
    else if c = '{' then s.openSection
    else none
  | .sectionOpen | .memberEnd => s.startMember c
  | .sectionClose => s.afterSection c
  | .memberName =>
    if !s.afterBlank && isNamePart c then some (s.extendToken c)
    else if c = '=' then
      some { s with memberName := some s.token, token := "", phase := .memberEquals }
    else none
  | .memberEquals | .arrayComma => s.startValue ops c
  | .arrayOpen =>
    if c = ']' then
      match s.nest with
      | .entity e es => some { s with nest := .close e es, phase := .arrayClose }
      | _ => none
    else s.startValue ops c
  | .arrayClose => s.afterValue c
  | .parenOpen | .callComma => s.startTerm ops c
  | .parenClose | .stringEnd => s.afterTerm ops c
  | .string =>
    if c = '\\' then some (s.enter .stringEscape)
    else if c = '"' then some ((s.flush .string).enter .stringEnd)
    else some (s.extendToken c)
  | .stringEscape => s.unescape c
  | .minus => if c.isDigit then some ((s.extendToken c).enter .number) else none
  | .number =>
    if !s.afterBlank && c.isDigit then some (s.extendToken c)
    else if !s.afterBlank && c = '.' then some ((s.extendToken c).enter .numberPoint)
    else s.afterToken ops .number c
  | .numberPoint =>
    if !s.afterBlank && c.isDigit then some ((s.extendToken c).enter .numberFraction) else none
  | .numberFraction =>
    if !s.afterBlank && c.isDigit then some (s.extendToken c) else s.afterToken ops .number c
  | .operator =>
    if !s.afterBlank && (ops.any fun op => (s.token.toList ++ [c]).isPrefixOf op.toList) then
      some (s.extendToken c)
    else s.startTerm ops c
  | .identifier =>
    if !s.afterBlank && isNamePart c then some (s.extendToken c)
    else if c = '(' then s.openCall
    else s.afterToken ops .identifier c
  | .callOpen => if c = ')' then s.afterValue c else s.startTerm ops c
  | .final => none

def accept (ops : List String) (s : Nested) (c : Char) : Option Nested :=
  if !s.phase.inString && isBlank c then some { s with afterBlank := true }
  else (s.step ops c).map fun s => { s with afterBlank := false }

def read (ops : List String) : Nested → List Char → Option Nested
  | s, [] => some s
  | s, c :: cs => (s.accept ops c).bind (read ops · cs)

end Nested

end Formulary

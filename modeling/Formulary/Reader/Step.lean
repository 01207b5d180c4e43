import Formulary.Reader.State

/-!
# One step of a reading

`Reader.step` reads one character that is not skipped.  Each phase allows few characters; where none
fits, the step fails.

A text is a root section with a final point:

* a section is `#title{` … `}` around members `name = value;`;
* an array is `[` … `]` around values with commas between them;
* an expression is a row of terms with operators between them, a term being a number, a string, a
  name, a call with arguments or an expression in parentheses.
-/

namespace Formulary.Reader

def reject {α : Type} (r : Reader) (c : Char) : Except ParseError α :=
  .error ⟨.unexpected c, r.cursor⟩

/-! ## The end of a value -/

/-- Makes a number or a name that has just ended an element. -/
def flushOperand (r : Reader) : Reader :=
  match r.phase with
  | .number | .numberFraction => r.flush .number
  | .identifier => r.flush .identifier
  | _ => r

/-- Whether `c` ends the current expression: outside all its parentheses, at a `;`, a `]`, or a `,`
between the items of an array. -/
def endsExpression (r : Reader) (c : Char) : Bool :=
  match r.entity.content with
  | .expression _ openParens =>
    let inArray := r.entity.parent.any fun p => (r.tree.entity p).content.isArray
    openParens = 0 && (c = ';' || c = ']' || (c = ',' && inArray))
  | _ => false

def leaveExpression (r : Reader) (c : Char) : Reader :=
  if r.phase.endsOperand && r.endsExpression c then r.leave else r

def elementParens (r : Reader) : Nat :=
  (r.element.map fun id => (r.tree.element id).openParens).getD 0

def inArgument (r : Reader) : Bool :=
  r.element.any fun id => (r.tree.element id).kind == .argument

/-- Reads what separates or closes values, once the value before it has been completed. -/
def separate (r : Reader) (c : Char) : Except ParseError Reader :=
  match r.entity.content with
  | .sect _ _ => if c = ';' then .ok (r.enter .memberEnd) else r.reject c
  | .array _ =>
    if c = ',' then .ok (r.enter .arrayComma)
    else if c = ']' ∧ r.openArrays > 0 then .ok (r.closeArray.enter .arrayClose)
    else r.reject c
  | .expression _ openParens =>
    if c = ',' ∧ r.inArgument ∧ r.elementParens = 0 then .ok (r.enter .callComma)
    else if c = ')' ∧ r.elementParens > 0 then .ok (r.closeParen.enter .parenClose)
    else if c = ')' ∧ r.inArgument ∧ openParens > 0 then .ok (r.closeCall.enter .parenClose)
    else r.reject c

/-- Reads what may follow a complete value: a separator or a closing bracket. -/
def afterValue (r : Reader) (c : Char) : Except ParseError Reader :=
  if c = ',' ∨ c = ';' ∨ c = ']' ∨ c = ')' then
    (r.flushOperand.leaveExpression c).separate c
  else r.reject c

/-- Begins an operator after the operand of the given kind that has just ended. -/
def beginOperator (r : Reader) (c : Char) : Reader := (r.beginToken c).enter .operator

/-- Reads what may follow an operand that is an element already: an operator, or what may follow a
value. -/
def afterTerm (r : Reader) (c : Char) : Except ParseError Reader :=
  if r.operatorStarts c then .ok (r.beginOperator c) else r.afterValue c

/-- Reads what may follow a number or a name: an operator, or what may follow a value. -/
def afterToken (r : Reader) (kind : ElementKind) (c : Char) : Except ParseError Reader :=
  if r.operatorStarts c then .ok ((r.flush kind).beginOperator c) else r.afterValue c

/-! ## The start of a value -/

/-- Makes the operator that has been read an element, if it is registered. -/
def flushOperator (r : Reader) (c : Char) : Except ParseError Reader :=
  if r.operators.contains r.token then .ok (r.flush .operator)
  else .error ⟨.unknownOperator r.token r.operators c, r.tokenStart⟩

/-- Puts the reading where a term belongs: after an operator, at the start of an expression, or in a
further argument. -/
def placeTerm (r : Reader) (c : Char) : Except ParseError Reader :=
  match r.phase with
  | .operator => r.flushOperator c
  | phase =>
    let r := if r.entity.content.isExpression then r else r.openExpression
    .ok (if phase = .callComma then r.nextArgument else r)

def beginTerm (r : Reader) (c : Char) : Except ParseError Reader :=
  if c = '(' then .ok (r.openParen.enter .parenOpen)
  else if c = '"' then .ok { r with token := "", tokenStart := r.cursor, phase := .string }
  else if c = '-' then .ok ((r.beginToken c).enter .minus)
  else if c.isDigit then .ok ((r.beginToken c).enter .number)
  else if isNameStart c then .ok ((r.beginToken c).enter .identifier)
  else r.reject c

def startTerm (r : Reader) (c : Char) : Except ParseError Reader :=
  if isTermStart c then do (← r.placeTerm c).beginTerm c else r.reject c

/-- Reads a character that must begin a value: an array, a section or a term. -/
def startValue (r : Reader) (c : Char) : Except ParseError Reader :=
  if c = '[' then .ok (r.openArray.enter .arrayOpen)
  else if c = '#' then .ok ((r.openEntity (.sect none #[])).enter .sectionMark)
  else r.startTerm c

/-! ## Sections -/

/-- Reads a character that must begin a member or close the section. -/
def startMember (r : Reader) (c : Char) : Except ParseError Reader :=
  if c = '}' ∧ r.openSections > 0 then .ok (r.closeSection.enter .sectionClose)
  else if isNameStart c then .ok ((r.beginToken c).enter .memberName)
  else r.reject c

/-- Reads what may follow a section; after the root section only the final point may. -/
def afterSection (r : Reader) (c : Char) : Except ParseError Reader :=
  if r.openSections = 0 then
    if c = '.' then .ok (r.enter .final) else r.reject c
  else r.afterValue c

/-! ## The step -/

def unescape (r : Reader) (c : Char) : Except ParseError Reader :=
  if c = '"' ∨ c = '\\' then .ok ((r.extendToken c).enter .string)
  else if c = 't' then .ok ((r.extendToken '\t').enter .string)
  else .error ⟨.badEscape c, r.cursor⟩

def step (r : Reader) (c : Char) : Except ParseError Reader :=
  match r.phase with
  | .start =>
    if c = '#' then
      .ok { r with
        tree := r.tree.modifyEntity Tree.root fun e => { e with position := r.cursor }
        phase := .sectionMark }
    else r.reject c
  | .sectionMark =>
    if isNameStart c then .ok ((r.beginToken c).enter .sectionTitle) else r.reject c
  | .sectionTitle =>
    if !r.afterBlank && isNamePart c then .ok (r.extendToken c)
    else if c = '{' then .ok (r.openSection.enter .sectionOpen)
    else r.reject c
  | .sectionOpen | .memberEnd => r.startMember c
  | .sectionClose => r.afterSection c
  | .memberName =>
    if !r.afterBlank && isNamePart c then .ok (r.extendToken c)
    else if c = '=' then
      .ok { r with memberName := some r.token, token := "", phase := .memberEquals }
    else r.reject c
  | .memberEquals | .arrayComma => r.startValue c
  | .arrayOpen =>
    if c = ']' ∧ r.openArrays > 0 then .ok (r.closeArray.enter .arrayClose) else r.startValue c
  | .arrayClose => r.afterValue c
  | .parenOpen | .callComma => r.startTerm c
  | .parenClose | .stringEnd => r.afterTerm c
  | .string =>
    if c = '\\' then .ok (r.enter .stringEscape)
    else if c = '"' then .ok ((r.flush .string).enter .stringEnd)
    else .ok (r.extendToken c)
  | .stringEscape => r.unescape c
  | .minus => if c.isDigit then .ok ((r.extendToken c).enter .number) else r.reject c
  | .number =>
    if !r.afterBlank && c.isDigit then .ok (r.extendToken c)
    else if !r.afterBlank && c = '.' then .ok ((r.extendToken c).enter .numberPoint)
    else r.afterToken .number c
  | .numberPoint =>
    if !r.afterBlank && c.isDigit then .ok ((r.extendToken c).enter .numberFraction)
    else r.reject c
  | .numberFraction =>
    if !r.afterBlank && c.isDigit then .ok (r.extendToken c) else r.afterToken .number c
  | .operator =>
    if !r.afterBlank && r.operatorExtends c then .ok (r.extendToken c) else r.startTerm c
  | .identifier =>
    if !r.afterBlank && isNamePart c then .ok (r.extendToken c)
    else if c = '(' then .ok (r.openCall.enter .callOpen)
    else r.afterToken .identifier c
  | .callOpen => if c = ')' then r.afterValue c else r.startTerm c
  | .final => r.reject c

end Formulary.Reader

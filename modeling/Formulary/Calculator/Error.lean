import Formulary.Library.Table
import Formulary.Tree.Basic

/-!
# Why an expression has no value

* `MemberSort`: the sorts of members of a library.
* `EvalError`: the errors.  An error inside an element is wrapped in a layer for the element, once
  for each element around it.
-/

namespace Formulary

inductive MemberSort where
  | operator
  | method
  | var
  deriving DecidableEq, Repr

namespace MemberSort

def all : List MemberSort := [operator, method, var]

def describe : MemberSort → String
  | operator => "operator"
  | method => "method"
  | var => "variable"

end MemberSort

inductive EvalError where
  | unknownLibrary (name : String)
  | noMember (library : String) (kind : MemberSort) (name : String)
  /-- A member was found and failed. -/
  | memberFailed (library : String) (kind : MemberSort) (name : String) (cause : LibraryError)
  /-- The operators and operands of an expression did not fit together. -/
  | unbalanced (values : Nat)
  /-- The arguments of calls were nested too deep. -/
  | tooDeep (limit : Nat)
  | nothingAt (path : String)
  | noExpression (name : String)
  /-- An error inside an element; the outermost layer alone
  carries the text that the tree was read from. -/
  | element (kind : ElementKind) (text : String) (position : Position) (span : Span)
      (source : Option NamedText) (inner : EvalError)
  deriving DecidableEq, Repr

namespace EvalError

def rootCause : EvalError → EvalError
  | element _ _ _ _ _ inner => inner.rootCause
  | e => e

def position : EvalError → Option Position
  | element _ _ position _ _ _ => some position
  | _ => none

def description (kind : ElementKind) (text : String) : String :=
  if text = "" then kind.describe else kind.describe ++ " '" ++ text ++ "'"

/-- The error in words, of a layer without the error inside it. -/
def message : EvalError → String
  | unknownLibrary name => "library '" ++ name ++ "' is not registered"
  | noMember library kind name =>
    kind.describe ++ " '" ++ name ++ "' not found in library '" ++ library ++ "'"
  | memberFailed library kind name _ =>
    kind.describe ++ " '" ++ name ++ "' of library '" ++ library ++ "' failed"
  | unbalanced values =>
    "evaluation left " ++ toString values ++ " values on the stack instead of one"
  | tooDeep limit =>
    "function arguments nested deeper than " ++ toString limit ++ " levels"
  | nothingAt path => "no member at path '" ++ path ++ "'"
  | noExpression name => "member '" ++ name ++ "' is not an expression"
  | element kind text position _ _ _ =>
    "runtime error evaluating " ++ description kind text ++ " at " ++ position.describe

def code : EvalError → String
  | unknownLibrary _ => "notation::eval::unknown_library"
  | noMember _ _ _ => "notation::eval::member_not_found"
  | memberFailed _ _ _ _ => "notation::eval::invocation"
  | unbalanced _ => "notation::eval::internal"
  | tooDeep _ => "notation::eval::depth"
  | nothingAt _ => "notation::eval::path"
  | noExpression _ => "notation::eval::not_expression"
  | element _ _ _ _ _ _ => "notation::eval::element"

def help : EvalError → Option String
  | unknownLibrary _ => some "register the library before computing, or fix the qualifier"
  | _ => none

/-- What the label points at, and the bytes that it marks. -/
def label : EvalError → Option (String × Span)
  | element _ _ _ span _ _ => some ("while evaluating this", span)
  | _ => none

def withSource (source : NamedText) : EvalError → EvalError
  | element kind text position span _ inner => element kind text position span (some source) inner
  | e => e

def layers : EvalError → List EvalError
  | element kind text position span source inner =>
    element kind text position span source inner :: inner.layers
  | e => [e]

end EvalError

end Formulary

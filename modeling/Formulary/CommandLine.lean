import Formulary.Calculator.Basic
import Formulary.Reader.Basic
import Formulary.Tree.Render

/-!
# The command line

Three commands work on a file: one blanks its comments, one shows its tree, and one computes the
expression that a dotted path leads to.

* `Command.ofArguments?`: the command that some arguments give.
* `Command.run`: what a command prints, and its exit code.
-/

namespace Formulary

inductive Command where
  | strip (file : String)
  /-- Shows the tree of a file, read with other operators where some are given. -/
  | parse (file : String) (operators : List String)
  | eval (file path : String)
  | version
  | help
  deriving DecidableEq, Repr

namespace Command

/-! ## Arguments -/

/-- An argument that is an option; a lone dash is not. -/
def isOption (s : String) : Bool := ['-'].isPrefixOf s.toList && s ≠ "-"

/-- A call for help; of several short options in one argument the first one counts. -/
def isHelp (s : String) : Bool := s = "--help" || ['-', 'h'].isPrefixOf s.toList

/-- A call for the version; of several short options in one argument the first one counts. -/
def isVersion (s : String) : Bool := s = "--version" || ['-', 'V'].isPrefixOf s.toList

/-- The value in an argument like `--operator=+`. -/
def attached? (option s : String) : Option String :=
  let start := (option ++ "=").toList
  if start.isPrefixOf s.toList then some (String.ofList (s.toList.drop start.length)) else none

/-- What a plain argument of a command is. -/
inductive Place where
  | file
  | path
  deriving DecidableEq, Repr

/-- Whether an argument can stand in a place; the name of a file is not empty. -/
def Place.admits : Place → String → Bool
  | file, s => s ≠ ""
  | path, _ => true

/-- Whether arguments can stand in the places from the first one on. -/
def admitted : List Place → List String → Bool
  | _, [] => true
  | [], _ :: _ => false
  | place :: places, s :: rest => place.admits s && admitted places rest

inductive Collected where
  | values (plain operators : List String)
  | help

def Collected.addPlain (s : String) : Collected → Collected
  | values plain operators => values (s :: plain) operators
  | help => help

def Collected.addOperator (s : String) : Collected → Collected
  | values plain operators => values plain (s :: operators)
  | help => help

/-- Collects at most a plain argument for each place, and operators where they are allowed.  After
`--` all arguments are plain.  A call for help settles all that follows, but not what came before
it. -/
def collect (withOperators : Bool) (places : List Place) : List String → Option Collected
  | [] => some (.values [] [])
  | s :: rest =>
    if s = "--" then if admitted places rest then some (.values rest []) else none
    else if isHelp s then some .help
    else if withOperators ∧ s = "--operator" then
      match rest with
      | [] => none
      | op :: rest =>
        if isOption op then none
        else (collect withOperators places rest).map (.addOperator op)
    else match (if withOperators then attached? "--operator" s else none), places with
      | some op, _ => (collect withOperators places rest).map (.addOperator op)
      | none, [] => none
      | none, place :: places =>
        if isOption s ∨ ¬ place.admits s then none
        else (collect withOperators places rest).map (.addPlain s)

/-- Whether help can be asked for on such a topic: on none, or on one of the commands. -/
def isTopic : List String → Bool
  | [] => true
  | [topic] => topic ∈ ["strip", "parse", "eval", "help"]
  | _ => false

def ofArguments? : List String → Option Command
  | "strip" :: rest =>
    match collect false [.file] rest with
    | some (.values [file] _) => some (.strip file)
    | some .help => some .help
    | _ => none
  | "parse" :: rest =>
    match collect true [.file] rest with
    | some (.values [file] operators) => some (.parse file operators)
    | some .help => some .help
    | _ => none
  | "eval" :: rest =>
    match collect false [.file, .path] rest with
    | some (.values [file, path] _) => some (.eval file path)
    | some .help => some .help
    | _ => none
  | "help" :: topic => if isTopic topic then some .help else none
  | s :: _ =>
    if isVersion s then some .version
    else if isHelp s then some .help
    else none
  | [] => none

def file? : Command → Option String
  | strip file | parse file _ | eval file _ => some file
  | version | help => none

/-! ## Running -/

/-- What a command leaves: the exit code, the text for standard output after all that the evaluation
printed, and the text for standard error. -/
structure Outcome where
  exitCode : Nat
  output : String
  errors : String
  deriving DecidableEq, Repr

def usage : String :=
  "Usage:\n  strip FILE\n  parse FILE [--operator OP]...\n  eval FILE PATH\n"

/-- The outcome of arguments that give no command. -/
def misuse : Outcome := ⟨2, "", usage⟩

def unreadable (file : String) : Outcome := ⟨1, "", "reading `" ++ file ++ "` failed\n"⟩

def unparsed (source : String) (e : ParseError) : Outcome := ⟨65, "", e.listing source⟩

def unevaluated (e : EvalError) : Outcome :=
  ⟨70, "", String.join (e.layers.map fun layer => layer.message ++ "\n")⟩

def run {m : Type → Type} [Monad m] [Console m] (command : Command) (contents : Option String) :
    m Outcome :=
  match command, contents with
  | version, _ => pure ⟨0, "notation 0.1.0\n", ""⟩
  | help, _ => pure ⟨0, usage, ""⟩
  | strip file, none | parse file _, none | eval file _, none => pure (unreadable file)
  | strip _, some source => pure ⟨0, Comment.strip source, ""⟩
  | parse file operators, some source =>
    let operators := if operators.isEmpty then defaultOperators else operators
    match Tree.read source operators (some file) with
    | .ok tree => pure ⟨0, tree.render, ""⟩
    | .error e => pure (unparsed source e)
  | eval file path, some source =>
    match Tree.read source defaultOperators (some file) with
    | .error e => pure (unparsed source e)
    | .ok tree => do
      match ← (Calculator.standard.valueAt tree path).run with
      | .ok v => return ⟨0, v.toText ++ "\n", ""⟩
      | .error e => return unevaluated e

end Command

end Formulary

import Preflight.Module.Settling

/-!
# Modules

A module is what the files of one directory declare: its blocks, evaluated, and the scope they are
evaluated in. A builder gathers documents and assignments of variables; `Builder.build` evaluates
them.

* A document that cannot be read leaves the builder as it is.
* Of several assignments to a variable the last one that has a value counts.
-/

namespace Preflight

/-- Why a module cannot be loaded. -/
inductive LoadError where
  /-- No configuration file in a directory. -/
  | noFiles (directory : String)
  /-- A file or directory cannot be read, for a cause that the file system gives. -/
  | unreadable (cause : String)
  /-- A document does not parse; what is wrong is in its text. -/
  | unparsable (text : String)
  deriving DecidableEq, Repr

/-- How an error is worded, without its cause. -/
def LoadError.message : LoadError → String
  | .noFiles directory => "No terraform files found in " ++ directory
  | .unreadable _ => "IO error"
  | .unparsable _ => "Unable to parse hcl file"

/-- The lines in which an error is shown: how it is worded, and then what the file system says. -/
def LoadError.lines : LoadError → List String
  | .unreadable cause => [message (.unreadable cause), cause]
  | err => [err.message]

/-- Documents and assignments gathered for a module. -/
structure Builder where
  /-- The files of the documents. -/
  sources : List (Option String)
  declarations : List Declaration
  /-- The values assigned to variables. -/
  assigned : Entries Value

/-- The evaluated blocks of a module and its scope. -/
structure Module where
  sources : List (Option String)
  blocks : List Block
  scope : Scope
  /-- Whether the last pass over the blocks changed nothing. -/
  settled : Bool

namespace Builder

/-- The builder without documents. -/
def empty : Builder := ⟨[], [], []⟩

/-- Adds the blocks of a document. -/
def insert (b : Builder) (file? : Option String) (text : String) : Except LoadError Builder :=
  match Document.parse? text with
  | none => .error (.unparsable text)
  | some statements => .ok
    { b with
      sources := b.sources ++ [file?]
      declarations := b.declarations ++ declarationsOf file? statements }

/-- Assigns a variable if the expression has a value on its own. -/
def assign (assigned : Entries Value) (a : Assignment) : Entries Value :=
  match (Context.mk Scope.empty []).evaluate a.expression with
  | .ok v => assigned.insert a.name v
  | .error _ => assigned

/-- Adds the assignments of a document. -/
def insertAssignments (b : Builder) (text : String) : Except LoadError Builder :=
  match Document.parse? text with
  | none => .error (.unparsable text)
  | some statements => .ok
    { b with assigned := (assignmentsOf none statements).foldl assign b.assigned }

/-- Evaluates everything gathered. -/
def build (b : Builder) : Module :=
  let (scope, settled) :=
    Module.settle b.declarations Module.maxPasses (Module.initialScope b.assigned b.declarations)
  ⟨b.sources, b.declarations.map (Declaration.materialize scope), scope, settled⟩

end Builder

/-- The blocks of a kind and a type at the root of a module. -/
def Module.blocksOf (m : Module) (kind type : String) : List Block :=
  m.blocks.filter fun b => b.heading.kind = kind ∧ b.heading.typeLabel = type

end Preflight

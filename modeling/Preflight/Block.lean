import Preflight.Diagnostic
import Preflight.Document

/-!
# Blocks

A declaration is a block as it is written; a block also has the values of its attributes and its
nested blocks, both evaluated in a scope.

* `Block.materialize` evaluates a block. It starts from the expressions each time, so what a block
  held before has no influence.
* A nested block that is `dynamic` is replaced by one block for each member of its `for_each`. They
  see the member under the name of the iterator, beside the locals of the enclosing block.
-/

namespace Preflight

/-- The kind, the labels and the place of a block. -/
structure Heading where
  kind : String
  labels : List String
  location : Location
  deriving DecidableEq, Repr

namespace Heading

/-- The first label. -/
def typeLabel (h : Heading) : String := h.labels.head?.getD ""

/-- The last label. -/
def nameLabel (h : Heading) : String := h.labels.getLast?.getD ""

/-- The labels joined by points. -/
def label (h : Heading) : String := ".".intercalate h.labels

/-- The address under which expressions refer to the block. -/
def address (h : Heading) : String :=
  if h.kind = "resource" then h.label
  else if h.kind = "variable" then "var." ++ h.label
  else if h.labels = [] then h.kind
  else h.kind ++ "." ++ h.label

end Heading

/-- An assignment as it is written. -/
structure Assignment where
  name : String
  expression : Expr
  location : Location

/-- A block as it is written. -/
structure Declaration where
  heading : Heading
  assignments : List Assignment
  nested : List Declaration

/-- An attribute with its value. -/
structure Attribute where
  name : String
  expression : Expr
  value : Value
  location : Location

/-- A block with the values of its attributes. -/
structure Block where
  heading : Heading
  attributes : List Attribute
  /-- The nested blocks, with `dynamic` ones replaced. -/
  blocks : List Block
  /-- The nested blocks as they are written. -/
  declared : List Declaration
  /-- Variables that only this block sees. -/
  locals : Entries Value

/-! ### Declarations from documents -/

/-- The assignments among the statements of a file. -/
def assignmentsOf (file? : Option String) (statements : List Statement) : List Assignment :=
  statements.filterMap fun s => match s with
    | .assignment name expression line => some ⟨name, expression, ⟨file?, some line⟩⟩
    | .block .. => none

mutual
/-- The block that a statement declares. -/
def Statement.declaration? (file? : Option String) : Statement → Option Declaration
  | .assignment .. => none
  | .block kind labels body line =>
    some ⟨⟨kind, labels, ⟨file?, some line⟩⟩, assignmentsOf file? body, declarationsOf file? body⟩

/-- The blocks that the statements of a file declare. -/
def declarationsOf (file? : Option String) : List Statement → List Declaration
  | [] => []
  | s :: ss => (s.declaration? file?).toList ++ declarationsOf file? ss
end

namespace Declaration

/-- The assignment to a name. -/
def assignment? (d : Declaration) (name : String) : Option Assignment :=
  d.assignments.find? fun a => a.name = name

/-- Whether a name is assigned. -/
def assigns (d : Declaration) (name : String) : Bool := (d.assignment? name).isSome

/-- Whether a declaration stands for any number of blocks. -/
def isMultiple (d : Declaration) : Bool := d.assigns "count" || d.assigns "for_each"

/-- The locals of a block at the root of a module: blocks that stand for any number of blocks are
not told apart, so what tells them apart is unknown. -/
def rootLocals (d : Declaration) : Entries Value :=
  (if d.assigns "count" then [("count", .unknown)] else []) ++
    (if d.assigns "for_each" then [("each", .unknown)] else [])

end Declaration

/-! ### Evaluation -/

/-- The attribute of an assignment in a context. -/
def Assignment.evaluate (c : Context) (a : Assignment) : Attribute :=
  ⟨a.name, a.expression, c.value a.expression, a.location⟩

/-- The members of a collection with their positions or keys. -/
def Value.members : Value → List (Value × Value)
  | .list items => items.mapIdx fun i v => (.number (.int i), v)
  | .object entries => entries.map fun (k, v) => (.string k, v)
  | _ => []

/-- The strings in a list. -/
def Value.stringItems : Value → List String
  | .list items => items.filterMap Value.string?
  | _ => []

/-- A block to be made from the content of a dynamic block. -/
structure Instance where
  heading : Heading
  locals : Entries Value

/-- The name under which the blocks of a dynamic block see their member. -/
def Declaration.iterator (d : Declaration) (kind : String) : String :=
  match (d.assignment? "iterator").map Assignment.expression with
  | some (.variable name) => name
  | _ => kind

/-- The blocks to be made from a dynamic block: of the kind that its label says, one for each member
of its `for_each`. -/
def Declaration.instances (d : Declaration) (scope : Scope) (locals : Entries Value) :
    List Instance :=
  match d.heading.labels, d.assignment? "for_each" with
  | kind :: _, some forEach =>
    ((Context.mk scope locals).value forEach.expression).members.map fun (key, item) =>
      let inner := locals.insert (d.iterator kind) (.object [("key", key), ("value", item)])
      let labels := match d.assignment? "labels" with
        | some a => ((Context.mk scope inner).value a.expression).stringItems
        | none => []
      ⟨⟨kind, labels, d.heading.location⟩, inner⟩
  | _, _ => []

mutual
/-- A block from what a declaration holds, under a heading and with locals of its own. -/
def Declaration.instantiate (scope : Scope) (i : Instance) : Declaration → Block
  | ⟨_, assignments, nested⟩ =>
    ⟨i.heading, assignments.map (Assignment.evaluate ⟨scope, i.locals⟩),
      expandNested scope i.locals nested, nested, i.locals⟩

/-- The blocks that a nested declaration stands for. -/
def Declaration.expand (scope : Scope) (locals : Entries Value) : Declaration → List Block
  | ⟨heading, assignments, nested⟩ =>
    if heading.kind = "dynamic" then
      expandContent scope (Declaration.instances ⟨heading, assignments, nested⟩ scope locals) nested
    else
      [⟨heading, assignments.map (Assignment.evaluate ⟨scope, locals⟩),
        expandNested scope locals nested, nested, locals⟩]

/-- The blocks that nested declarations stand for. -/
def expandNested (scope : Scope) (locals : Entries Value) : List Declaration → List Block
  | [] => []
  | d :: ds => d.expand scope locals ++ expandNested scope locals ds

/-- The blocks made from the first `content` among some declarations. -/
def expandContent (scope : Scope) (instances : List Instance) : List Declaration → List Block
  | [] => []
  | d :: ds =>
    if d.heading.kind = "content" then instances.map fun i => d.instantiate scope i
    else expandContent scope instances ds
end

/-- A declaration at the root of a module as a block, evaluated in a scope. -/
def Declaration.materialize (scope : Scope) (d : Declaration) : Block :=
  d.instantiate scope ⟨d.heading, d.rootLocals⟩

namespace Block

/-- The attribute of a name. -/
def attribute? (b : Block) (name : String) : Option Attribute :=
  b.attributes.find? fun a => a.name = name

/-- The attribute of a name unless it is null. -/
def presentAttribute? (b : Block) (name : String) : Option Attribute :=
  (b.attribute? name).filter fun a => !a.value.isNull

/-- The nested blocks of a kind. -/
def blocksOf (b : Block) (kind : String) : List Block :=
  b.blocks.filter fun n => n.heading.kind = kind

/-- Whether the block stands for any number of blocks. -/
def isMultiple (b : Block) : Bool :=
  (b.attribute? "count").isSome || (b.attribute? "for_each").isSome

/-- The address under which expressions refer to the block. -/
def address (b : Block) : String := b.heading.address

/-- The context in which the expressions of the block are evaluated. -/
def context (b : Block) (scope : Scope) : Context := ⟨scope, b.locals⟩

/-- The block evaluated again, in another scope. -/
def materialize (scope : Scope) (b : Block) : Block :=
  { b with
    attributes := b.attributes.map fun a =>
      { a with value := (b.context scope).value a.expression }
    blocks := expandNested scope b.locals b.declared }

end Block
end Preflight

import Preflight.Block
import Preflight.TagPolicy
import Preflight.TypeSpec.Decoding

/-!
# The scope of a module

Blocks may refer to each other in any order. The scope of a module is computed in passes over all
blocks, each of which reads what the ones before it wrote, until a pass changes nothing.

* `variableValues` gives the values of the variables, from assignments or defaults, converted to
  their types where that works.
* `pass` writes the values of locals, data sources and resources.
* `settle` repeats the pass, sixteen times at most, and says whether it settled.
-/

namespace Preflight

namespace Declaration

/-- The context of a declaration at the root of a module. -/
def context (d : Declaration) (scope : Scope) : Context := ⟨scope, d.rootLocals⟩

/-- A value converted to the type that an expression writes; unchanged where that fails. -/
def typed (type : Expr) (v : Value) : Value :=
  match TypeSpec.decode type with
  | .error _ => v
  | .ok spec => match spec.convert (spec.applyDefaults v) with
    | .ok w => w
    | .error _ => v

/-- The value of a variable before its type counts: as assigned, else the default, else unknown. -/
def givenValue (assigned : Entries Value) (d : Declaration) : Value :=
  match assigned.get? d.heading.nameLabel, d.assignment? "default" with
  | some v, _ => v
  | none, some a => (d.context Scope.empty).value a.expression
  | none, none => .unknown

/-- The value of a variable. -/
def variableValue (assigned : Entries Value) (d : Declaration) : Value :=
  match d.assignment? "type" with
  | some a => typed a.expression (d.givenValue assigned)
  | none => d.givenValue assigned

/-- What references to a data source or a resource see: its attributes. -/
def referenceValue (scope : Scope) (d : Declaration) : Value :=
  if d.isMultiple then .unknown
  else .object (d.assignments.map fun a => (a.name, (d.context scope).value a.expression))

end Declaration

namespace Module

/-- The values of all variables by name. -/
def variableValues (assigned : Entries Value) (ds : List Declaration) : Entries Value :=
  Entries.ofList ((ds.filter fun d => d.heading.kind = "variable").map fun d =>
    (d.heading.nameLabel, d.variableValue assigned))

/-- The path below which a declaration's attributes are computed later, if they are. -/
def computedPath? (d : Declaration) : Option (List String) :=
  match d.heading.kind, d.heading.labels with
  | "resource", [type, _] => some [type]
  | "data", [type, _] => if type = parameterType then none else some ["data", type]
  | _, _ => none

/-- The scope before the first pass. -/
def initialScope (assigned : Entries Value) (ds : List Declaration) : Scope :=
  let roots := Scope.empty.declare "var" (.object (variableValues assigned ds))
  (ds.filterMap computedPath?).foldl Scope.markComputed (roots.declare "local" (.object []))

/-- Writes the value of one local. -/
def writeLocal (d : Declaration) (scope : Scope) (a : Assignment) : Scope :=
  scope.set ["local", a.name] ((d.context scope).value a.expression)

/-- Writes what a declaration contributes to the scope. -/
def write (scope : Scope) (d : Declaration) : Scope :=
  match d.heading.kind, d.heading.labels with
  | "locals", _ => d.assignments.foldl (writeLocal d) scope
  | "data", [type, name] => scope.set ["data", type, name] (d.referenceValue scope)
  | "resource", [type, name] => scope.set [type, name] (d.referenceValue scope)
  | _, _ => scope

/-- One pass over all declarations. -/
def pass (ds : List Declaration) (scope : Scope) : Scope := ds.foldl write scope

/-- Passes until one changes nothing, a number of them at most; says whether the last one changed
nothing. -/
def settle (ds : List Declaration) : Nat → Scope → Scope × Bool
  | 0, scope => (scope, false)
  | n + 1, scope =>
    let next := pass ds scope
    if next.same scope then (next, true) else settle ds n next

/-- How many passes there are at most. -/
def maxPasses : Nat := 16

end Module
end Preflight

import Preflight.Value.Basic

/-!
# Scopes

A scope holds the values of a module's root variables, such as `var`, `local`, `data` and one for
each resource type. Below some paths it is known that attributes appear only later: these are the
computed paths.

* `getPath?` and `set` read and write the value at a path; writing makes the objects on the way.
* `lookup` says what a reference finds: nothing at all, something unknown, a value, or a path that
  leaves the values.
* `same` compares scopes whatever the order of their entries.
-/

namespace Preflight

/-- Writes a value at a path; what is no object on the way becomes one. -/
def Value.set : Value → List String → Value → Value
  | _, [], value => value
  | target, key :: path, value =>
    let entries := match target with
      | .object entries => entries
      | _ => []
    let inner := (Entries.get? entries key).getD .null
    .object (Entries.insert entries key (Value.set inner path value))

/-- Root variables and computed paths. -/
structure Scope where
  roots : Entries Value
  computed : List (List String)

namespace Scope

/-- The scope without variables. -/
def empty : Scope := ⟨[], []⟩

/-- Gives a root variable a value. -/
def declare (s : Scope) (name : String) (value : Value) : Scope :=
  { s with roots := s.roots.insert name value }

/-- The value of a root variable. -/
def get? (s : Scope) (name : String) : Option Value := s.roots.get? name

/-- The value at a path. -/
def getPath? (s : Scope) : List String → Option Value
  | [] => none
  | root :: path => (s.get? root).bind fun v => v.getPath? path

/-- Writes a value at a path; the empty path writes nothing. -/
def set (s : Scope) : List String → Value → Scope
  | [], _ => s
  | root :: path, value => s.declare root (((s.get? root).getD .null).set path value)

/-- Says that the attributes missing below a path are computed later. -/
def markComputed (s : Scope) (path : List String) : Scope :=
  if s.computed.contains path then s else { s with computed := s.computed ++ [path] }

/-- Whether the attributes missing from the object at a path are computed later. -/
def isComputed (s : Scope) (path : List String) : Bool :=
  s.computed.any fun stem => stem.length < path.length && stem.isPrefixOf path

/-- Equality of scopes: the same values of the same roots, and the same computed paths. -/
def same (s t : Scope) : Bool :=
  (Value.object s.roots).equal (.object t.roots) && s.computed = t.computed

end Scope

/-- What a reference finds. -/
inductive Lookup where
  /-- There is no such root. -/
  | undeclared
  /-- The path reaches something unknown or computed. -/
  | unknown
  | found (value : Value)
  /-- The path leaves the values that are there. -/
  | incomplete

namespace Scope

/-- Follows attribute names from the value at a path. -/
def follow (s : Scope) (path : List String) : Value → List String → Lookup
  | v, [] => .found v
  | .unknown, _ :: _ => .unknown
  | .object entries, name :: names => match Entries.get? entries name with
    | some v => s.follow (path ++ [name]) v names
    | none => if s.isComputed path then .unknown else .incomplete
  | _, _ :: _ => .incomplete

end Scope
end Preflight

import Preflight.Block

/-!
# Reading attributes

Typed access to the attributes of a block. Reading never fails: an attribute that is missing though
required, or that has a value of another type, is reported and read as the zero value of its type. A
null attribute counts as missing. Each access reports one thing at most.
-/

namespace Preflight

/-- A type of attribute values: its name in messages, how a value is read and what stands for one
that cannot be read. -/
structure Shape (α : Type) where
  name : String
  read? : Value → Option α
  zero : α

namespace Shape

/-- A string. -/
def string : Shape String := ⟨"string", Value.string?, ""⟩

/-- A truth value. -/
def bool : Shape Bool :=
  ⟨"bool", fun v => match v with | .bool b => some b | _ => none, false⟩

/-- An integer that fits a signed 64-bit word. -/
def whole : Shape (Option Int) :=
  ⟨"whole number", fun v => match v with | .number n => n.whole?.map some | _ => none, none⟩

end Shape

namespace Block

/-- The report that an attribute is missing. -/
def missing (b : Block) (name : String) : Diagnostic :=
  (Diagnostic.error .missingRequiredArgument "Missing required argument"
    ("The argument " ++ Text.quoted name ++ " is required, but no definition was found.")).located
      (some b.heading.location) b.address

/-- The report that an attribute has a value of another type. -/
def mistyped (b : Block) (expected : String) (a : Attribute) : Diagnostic :=
  let detail :=
    if a.value.isWhollyKnown then
      Text.quoted a.name ++ " attribute must be of type " ++ expected ++ " for " ++ b.address ++
        ", found " ++ a.value.typeName
    else
      Text.quoted a.name ++ " attribute of " ++ b.address ++ " must be a known " ++ expected ++
        ", but its value depends on values not known yet"
  ((Diagnostic.error .invalidAttributeType "Invalid attribute type" detail).about
    a.expression).located (some a.location) b.address

/-- Reports a required attribute that is missing. -/
def require (b : Block) (name : String) : Diagnostics :=
  match b.presentAttribute? name with
  | some _ => []
  | none => [b.missing name]

/-- Reads an attribute that may be missing. -/
def read {α : Type} (b : Block) (shape : Shape α) (name : String) : Reported α :=
  match b.presentAttribute? name with
  | none => ⟨shape.zero, []⟩
  | some a => match shape.read? a.value with
    | some v => ⟨v, []⟩
    | none => ⟨shape.zero, [b.mistyped shape.name a]⟩

/-- Reads a required attribute. -/
def readRequired {α : Type} (b : Block) (shape : Shape α) (name : String) : Reported α :=
  match b.presentAttribute? name with
  | none => ⟨shape.zero, [b.missing name]⟩
  | some _ => b.read shape name

end Block
end Preflight

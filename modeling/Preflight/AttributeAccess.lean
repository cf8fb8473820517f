import Preflight.AttributeReading

/-!
# Accesses to attributes

The attributes of a block are accessed one after another through a reader, which gathers what is
reported. An access names an attribute, requires it any number of times, and may end by reading it. Of the
failures of one access only the first is reported.

`Block.read`, `Block.readRequired` and `Block.require` are the accesses that are needed most, each on its
own.
-/

namespace Preflight

/-- How an access ends: with a value of some type, with the attribute itself, or with nothing. -/
inductive Ending where
  | string
  | bool
  | whole
  | attribute
  | nothing
  deriving DecidableEq, Repr

/-- What an access gives. -/
inductive Answer where
  | string (text : String)
  | bool (value : Bool)
  | whole (value? : Option Int)
  | attribute (found? : Option Attribute)
  | nothing

/-- An access: to which attribute, how often it is required there, and how the access ends. -/
structure AttributeAccess where
  name : String
  required : Nat
  ending : Ending
  deriving DecidableEq, Repr

/-- A block and what has been reported while its attributes were read. -/
structure Reader where
  block : Block
  diagnostics : Diagnostics

/-- An attribute in the course of an access. -/
structure ExpectedAttribute where
  reader : Reader
  name : String
  /-- Whether this access has reported something. -/
  failed : Bool

namespace ExpectedAttribute

/-- The attribute unless it is missing or null. -/
def present? (x : ExpectedAttribute) : Option Attribute := x.reader.block.presentAttribute? x.name

/-- Reports a failure unless the access has reported one. -/
def fail (x : ExpectedAttribute) (d : Diagnostic) : ExpectedAttribute :=
  if x.failed then x
  else ⟨{ x.reader with diagnostics := x.reader.diagnostics ++ [d] }, x.name, true⟩

/-- Requires the attribute. -/
def require (x : ExpectedAttribute) : ExpectedAttribute :=
  match x.present? with
  | some _ => x
  | none => x.fail (x.reader.block.missing x.name)

/-- Reads the attribute as a value of some type. -/
def read {α : Type} (shape : Shape α) (x : ExpectedAttribute) : α × ExpectedAttribute :=
  match x.present? with
  | none => (shape.zero, x)
  | some a => match shape.read? a.value with
    | some v => (v, x)
    | none => (shape.zero, x.fail (x.reader.block.mistyped shape.name a))

/-- Ends the access with a value of some type. -/
def finishWith {α : Type} (shape : Shape α) (answer : α → Answer) (x : ExpectedAttribute) :
    Answer × Reader :=
  let (v, x) := x.read shape
  (answer v, x.reader)

/-- Ends the access. -/
def finish (x : ExpectedAttribute) : Ending → Answer × Reader
  | .string => x.finishWith .string .string
  | .bool => x.finishWith .bool .bool
  | .whole => x.finishWith .whole .whole
  | .attribute => (.attribute x.present?, x.reader)
  | .nothing => (.nothing, x.reader)

end ExpectedAttribute

namespace Reader

/-- A reader that has reported nothing. -/
def new (b : Block) : Reader := ⟨b, []⟩

/-- One access. -/
def access (r : Reader) (a : AttributeAccess) : Answer × Reader :=
  (Nat.repeat ExpectedAttribute.require a.required ⟨r, a.name, false⟩).finish a.ending

/-- Accesses one after another. -/
def run : Reader → List AttributeAccess → List Answer × Reader
  | r, [] => ([], r)
  | r, a :: as =>
    let (answer, next) := r.access a
    let (answers, last) := run next as
    (answer :: answers, last)

end Reader
end Preflight

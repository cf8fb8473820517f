import Preflight.AttributeReading
import Preflight.Input
import Preflight.Module.Basic
import Preflight.Value.Text

/-!
# Parameters

A `coder_parameter` block declares a parameter that a user is asked for.

* Its value is, in this order, the block's own `value`, the value that the caller supplies, or the
  default converted to the declared type.
* Parameters are resolved in the order of their declaration. A value that was supplied or came from
  the default is written into the scope of the module, where the parameters after it see it.
* A default or type that does not work is a warning; the parameter stays. Every other fault is an
  error.
-/

namespace Preflight

/-- What is known of a parameter's value. -/
inductive ParameterValue where
  /-- A wholly known value; it may be null. -/
  | known (value : Value)
  | unknown
  /-- The default does not work, for the reasons given. -/
  | errored (reasons : Diagnostics)
  /-- There is neither a default nor a supplied value. -/
  | missing

namespace ParameterValue

/-- A value as far as it is known. -/
def ofValue (v : Value) : ParameterValue := if v.isWhollyKnown then .known v else .unknown

/-- What is written into the scope. -/
def written? : ParameterValue → Option Value
  | .known v => some v
  | .unknown => some .unknown
  | .errored _ => none
  | .missing => none

/-- What is reported on account of the value. -/
def reasons : ParameterValue → Diagnostics
  | .errored reasons => reasons
  | _ => []

/-- The string form of the value. -/
def text : ParameterValue → Except NotText String
  | .known v => v.toText
  | .unknown => .error .notKnown
  | .errored _ => .error .noValue
  | .missing => .error .noValue

end ParameterValue

/-- One of the values that a user can choose. -/
structure ParameterOption where
  name : String
  description : String
  value : String
  icon : String
  deriving DecidableEq, Repr

/-- What a value must satisfy. -/
structure Validation where
  regex : String
  error : String
  min? : Option Int
  max? : Option Int
  monotonic : String
  deriving DecidableEq, Repr

/-- A resolved parameter. -/
structure Parameter where
  name : String
  displayName : String
  description : String
  /-- The declared type as it is written. -/
  type : String
  mutable : Bool
  ephemeral : Bool
  /-- There is no default. -/
  required : Bool
  icon : String
  order : Int
  defaultText : String
  options : List ParameterOption
  validation? : Option Validation
  value : ParameterValue
  address : String
  location : Location
  diagnostics : Diagnostics

/-- Whether the parameter is left out of the results. -/
def Parameter.hasErrors (p : Parameter) : Bool := p.diagnostics.hasErrors

namespace Parameter

/-- The type that a parameter declares, as it is written; `string` if there is none. -/
def typeText (b : Block) : String :=
  match b.presentAttribute? "type" with
  | none => "string"
  | some a => match a.value with
    | .string s => s
    | _ => match TypeSpec.decode a.expression with
      | .ok spec => spec.text
      | .error _ => a.expression.text

/-- The value of a parameter whose default does not work: one warning. -/
def warn (b : Block) (a : Attribute) (d : Diagnostic) : ParameterValue :=
  .errored [d.asWarning.located (some a.location) b.address]

/-- A default converted to the declared type. -/
def convertDefault (b : Block) (a : Attribute) (v : Value) : ParameterValue :=
  match b.presentAttribute? "type" with
  | none => .ofValue v
  | some type => match TypeSpec.decode type.expression with
    | .error err =>
      warn b a ((Diagnostic.error .invalidAttributeType "Invalid type" err.message).about
        type.expression)
    | .ok spec => match spec.convert (spec.applyDefaults v) with
      | .ok w => .ofValue w
      | .error err =>
        warn b a ((Diagnostic.error .typeConversionFailure "Invalid default value"
          ("The default value is not compatible with type " ++ spec.text ++ ": " ++
            err.message)).about a.expression)

/-- The value of a parameter that sets none itself: as supplied, or by default. -/
def resolveValue (b : Block) (scope : Scope) (input : Input) : ParameterValue :=
  match input.value? b.heading.nameLabel with
  | some s => .known (.string s)
  | none => match b.attribute? "default" with
    | none => .missing
    | some a => match (b.context scope).evaluate a.expression with
      | .error err => warn b a (err.diagnostic a.expression)
      | .ok v => convertDefault b a v

/-- The path at which expressions find the value of a parameter. -/
def valuePath (b : Block) : List String := b.heading.kind :: b.heading.labels ++ ["value"]

/-- Makes the value of a parameter visible. -/
def writeBack (b : Block) (scope : Scope) (value : ParameterValue) : Scope :=
  match value.written? with
  | some v => scope.set (valuePath b) v
  | none => scope

/-- Reads an option. -/
def readOption (b : Block) : Reported ParameterOption :=
  let name := b.readRequired .string "name"
  let description := b.read .string "description"
  let value := b.readRequired .string "value"
  let icon := b.read .string "icon"
  ⟨⟨name.value, description.value, value.value, icon.value⟩,
    name.diagnostics ++ description.diagnostics ++ value.diagnostics ++ icon.diagnostics⟩

/-- Reads the options; one with errors is left out. -/
def readOptions (b : Block) : Reported (List ParameterOption) :=
  let options := (b.blocksOf "option").map readOption
  ⟨(options.filter fun o => !o.diagnostics.hasErrors).map Reported.value,
    options.flatMap Reported.diagnostics⟩

/-- Reads a validation. -/
def readValidation (b : Block) : Reported Validation :=
  let regex := b.read .string "regex"
  let error := b.read .string "error"
  let min := b.read .whole "min"
  let max := b.read .whole "max"
  let monotonic := b.read .string "monotonic"
  ⟨⟨regex.value, error.value, min.value, max.value, monotonic.value⟩,
    regex.diagnostics ++ error.diagnostics ++ min.diagnostics ++ max.diagnostics ++
      monotonic.diagnostics⟩

/-- Reads the first validation, if there is one. -/
def readValidation? (b : Block) : Reported (Option Validation) :=
  match b.blocksOf "validation" with
  | [] => ⟨none, []⟩
  | v :: _ => ⟨some (readValidation v).value, (readValidation v).diagnostics⟩

/-- The text of the default, empty if it has none. -/
def defaultText? (b : Block) : String :=
  match b.presentAttribute? "default" with
  | none => ""
  | some a => match a.value.toText with
    | .ok s => s
    | .error _ => ""

/-- Describes a parameter with its value; `b` is evaluated in the scope of the moment. -/
def describe (b : Block) (value : ParameterValue) : Parameter :=
  let options := readOptions b
  let validation := readValidation? b
  let name := b.readRequired .string "name"
  let displayName := b.read .string "display_name"
  let description := b.read .string "description"
  let isMutable := b.read .bool "mutable"
  let ephemeral := b.read .bool "ephemeral"
  let icon := b.read .string "icon"
  let order := b.read .whole "order"
  { name := name.value
    displayName := displayName.value
    description := description.value
    type := typeText b
    mutable := isMutable.value
    ephemeral := ephemeral.value
    required := (b.attribute? "default").isNone
    icon := icon.value
    order := order.value.getD 0
    defaultText := defaultText? b
    options := options.value
    validation? := validation.value
    value
    address := b.address
    location := b.heading.location
    diagnostics := value.reasons ++ options.diagnostics ++ validation.diagnostics ++
      name.diagnostics ++ displayName.diagnostics ++ description.diagnostics ++
      isMutable.diagnostics ++ ephemeral.diagnostics ++ icon.diagnostics ++ order.diagnostics }

/-- Resolves one parameter and makes its value visible. -/
def resolve (input : Input) (scope : Scope) (declared : Block) : Parameter × Scope :=
  let b := declared.materialize scope
  match b.attribute? "value" with
  | some a => (describe b (.ofValue a.value), scope)
  | none =>
    let value := resolveValue b scope input
    (describe b value, writeBack b scope value)

/-- Resolves parameters in order. -/
def resolveAll (input : Input) : Scope → List Block → List Parameter × Scope
  | scope, [] => ([], scope)
  | scope, b :: bs =>
    let (p, next) := resolve input scope b
    let (ps, last) := resolveAll input next bs
    (p :: ps, last)

end Parameter

/-- The blocks of a module that declare parameters. -/
def Module.parameterBlocks (m : Module) : List Block := m.blocksOf "data" parameterType

/-- Resolves the parameters of a module. -/
def Module.resolveParameters (input : Input) (m : Module) : List Parameter × Module :=
  let (parameters, scope) := Parameter.resolveAll input m.scope m.parameterBlocks
  (parameters, { m with scope })

end Preflight

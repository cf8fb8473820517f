import Preflight.Extraction
import Preflight.Json.Printer
import Preflight.Yaml

/-!
# Reports

What an extraction found, as plain data. Fields stand in a fixed order; a state stands beside the
value that belongs to it.
-/

namespace Preflight

/-- A list of strings as data. -/
def stringData (ss : List String) : Datum := .list (ss.map Datum.string)

/-- The data of a location. -/
def Location.datum (l : Location) : Datum :=
  .object [("file", .ofString? l.file?), ("line", .ofInt? (l.line?.map Int.ofNat))]

/-- The data of an optional location. -/
def locationData (l? : Option Location) : Datum :=
  match l? with
  | some l => l.datum
  | none => .null

/-- The data of a diagnostic. -/
def Diagnostic.datum (d : Diagnostic) : Datum :=
  .object [("severity", .string d.severity.word), ("kind", .string d.kind.word),
    ("summary", .string d.summary), ("detail", .string d.detail),
    ("location", locationData d.location?), ("expression", .ofString? d.expression?),
    ("context", .ofString? d.context?)]

/-- The data of diagnostics. -/
def Diagnostics.datum (ds : Diagnostics) : Datum := .list (ds.map Diagnostic.datum)

/-- A state without a value. -/
def bareState (state : String) : Datum := .object [("state", .string state)]

/-- A state with its value. -/
def stateOf (state : String) (value : Datum) : Datum :=
  .object [("state", .string state), ("value", value)]

/-- The data of a value and its state. -/
def ParameterValue.datum : ParameterValue → Datum
  | .known v => stateOf "known" v.toDatum
  | .unknown => bareState "unknown"
  | .errored reasons => stateOf "errored" reasons.datum
  | .missing => bareState "missing"

/-- The data of an option. -/
def ParameterOption.datum (o : ParameterOption) : Datum :=
  .object [("name", .string o.name), ("description", .string o.description),
    ("value", .string o.value), ("icon", .string o.icon)]

/-- The data of a validation. -/
def Validation.datum (v : Validation) : Datum :=
  .object [("regex", .string v.regex), ("error", .string v.error), ("min", .ofInt? v.min?),
    ("max", .ofInt? v.max?), ("monotonic", .string v.monotonic)]

/-- The data of a parameter. -/
def Parameter.datum (p : Parameter) : Datum :=
  .object [("name", .string p.name), ("display_name", .string p.displayName),
    ("description", .string p.description), ("type", .string p.type), ("mutable", .bool p.mutable),
    ("ephemeral", .bool p.ephemeral), ("required", .bool p.required), ("icon", .string p.icon),
    ("order", .number (.int p.order)), ("default_value", .string p.defaultText),
    ("options", .list (p.options.map ParameterOption.datum)),
    ("validation", match p.validation? with
      | some v => v.datum
      | none => .null),
    ("value", p.value.datum), ("address", .string p.address), ("location", p.location.datum),
    ("diagnostics", p.diagnostics.datum)]

/-- The data of a side and its state. -/
def TagValue.datum : TagValue → Datum
  | .known text => stateOf "known" (.string text)
  | .unknown => bareState "unknown"
  | .errored => bareState "errored"

/-- The data of a key or value. -/
def TagSide.datum (s : TagSide) : Datum :=
  .object [("expression", .string s.expression), ("references", stringData s.references),
    ("value", s.value.datum)]

/-- The data of a tag. -/
def Tag.datum (t : Tag) : Datum := .object [("key", t.key.datum), ("value", t.value.datum)]

/-- The data of a tag block. -/
def TagBlock.datum (b : TagBlock) : Datum :=
  .object [("address", .string b.address), ("location", locationData b.location?),
    ("tags", .list (b.tags.map Tag.datum)), ("errored", .bool b.errored),
    ("diagnostics", b.diagnostics.datum)]

/-- The parameters of an extraction. -/
def Output.parameterData (o : Output) : Datum := .list (o.parameters.map Parameter.datum)

/-- Everything that an extraction found. -/
def Output.datum (o : Output) : Datum :=
  .object [("parameters", o.parameterData),
    ("workspace_tags", .list (o.tagBlocks.map TagBlock.datum)),
    ("diagnostics", o.diagnostics.datum)]

/-- The report of an extraction: its parameters, and its tags by key. -/
def Output.report (o : Output) : Datum :=
  .object [("parameters", o.parameterData),
    ("tags", .object (o.tags.map fun (key, value) => (key, .string value))),
    ("unknown_tags", stringData o.unknownTags)]

end Preflight

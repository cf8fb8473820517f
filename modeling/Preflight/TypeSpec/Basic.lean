import Preflight.Expr.Evaluation
import Preflight.Expr.Parser
import Preflight.Json.Reader
import Preflight.Text.Blank
import Preflight.Text.Quoted

/-!
# Types of values

A type says what a value must look like. Its text can be read back as a type, but for the default
values of optional attributes.

* `TypeSpec.convert` converts a value to a type or says why it cannot; null and unknown values stay
  as they are.
* `TypeSpec.applyDefaults` fills in the defaults of optional attributes that are absent or null.
* A string converts to a list type if it holds a JSON array.
-/

namespace Preflight

mutual
/-- Types of values. -/
inductive TypeSpec where
  | any
  | string
  | number
  | bool
  | list (element : TypeSpec)
  | set (element : TypeSpec)
  | map (element : TypeSpec)
  | tuple (elements : List TypeSpec)
  | object (attributes : List (String × AttributeSpec))

/-- An attribute of an object type. An optional one may have a default. -/
inductive AttributeSpec where
  | required (type : TypeSpec)
  | optional (type : TypeSpec) (default? : Option Value)
end

namespace TypeSpec

mutual
/-- A type as it is written. -/
def text : TypeSpec → String
  | .any => "any"
  | .string => "string"
  | .number => "number"
  | .bool => "bool"
  | .list element => "list(" ++ element.text ++ ")"
  | .set element => "set(" ++ element.text ++ ")"
  | .map element => "map(" ++ element.text ++ ")"
  | .tuple elements => "tuple([" ++ ", ".intercalate (texts elements) ++ "])"
  | .object attributes => "object(\x7b" ++ ", ".intercalate (attributeTexts attributes) ++ "\x7d)"

/-- Each of the types as it is written. -/
def texts : List TypeSpec → List String
  | [] => []
  | t :: ts => t.text :: texts ts

/-- Each of the attributes as it is written. -/
def attributeTexts : List (String × AttributeSpec) → List String
  | [] => []
  | (name, a) :: as => (name ++ " = " ++ attributeText a) :: attributeTexts as

/-- The type of an attribute as it is written. -/
def attributeText : AttributeSpec → String
  | .required type => type.text
  | .optional type _ => "optional(" ++ type.text ++ ")"
end

end TypeSpec

/-- Why a value does not convert to a type. -/
inductive ConversionError where
  | mismatch (expected : String) (found : String)
  | invalidNumber (text : String)
  | invalidBool (text : String)
  | missingAttribute (name : String)
  | tupleLength (expected found : Nat)
  deriving DecidableEq, Repr

/-- How a cause is worded. -/
def ConversionError.message : ConversionError → String
  | .mismatch expected found => expected ++ " required, but have " ++ found
  | .invalidNumber text => "a number is required, but " ++ Text.quoted text ++ " is not a number"
  | .invalidBool text =>
    "a bool is required, but " ++ Text.quoted text ++ " is neither \"true\" nor \"false\""
  | .missingAttribute name => "attribute " ++ Text.quoted name ++ " is required"
  | .tupleLength expected found =>
    "tuple requires " ++ toString expected ++ " elements, but have " ++ toString found

/-- The items of a list, or of the JSON array that a string holds. -/
def Value.elements? : Value → Option (List Value)
  | .list items => some items
  | .string s => match (Json.read? s).map Value.ofDatum with
    | some (.list items) => some items
    | _ => none
  | _ => none

/-- Adds a value to a list that holds none twice. -/
def addUnique (values : List Value) (v : Value) : List Value :=
  if v.among values then values else values ++ [v]

namespace TypeSpec

/-- The result of a conversion. -/
abbrev Conversion := Except ConversionError

/-- The failure of a value that is of another type altogether. -/
def mismatch {α : Type} (expected : TypeSpec) (v : Value) : Conversion α :=
  .error (.mismatch expected.text v.typeName)

/-- A value as a string. -/
def convertString : Value → Conversion Value
  | .string s => .ok (.string s)
  | .number n => .ok (.string n.text)
  | .bool b => .ok (.string (boolText b))
  | v => mismatch .string v

/-- A value as a number; a string may hold one. -/
def convertNumber : Value → Conversion Value
  | .number n => .ok (.number n)
  | .string s => match Number.parse? (Text.trimChars s.toList) with
    | some n => .ok (.number n)
    | none => .error (.invalidNumber s)
  | v => mismatch .number v

/-- A value as a truth value; a string may hold one. -/
def convertBool : Value → Conversion Value
  | .bool b => .ok (.bool b)
  | .string s =>
    if s = "true" then .ok (.bool true)
    else if s = "false" then .ok (.bool false)
    else .error (.invalidBool s)
  | v => mismatch .bool v

/-- Null and unknown values convert to every type as they are; all others by a rule. -/
def unlessOpen (rule : Value → Conversion Value) : Value → Conversion Value
  | .unknown => .ok .unknown
  | .null => .ok .null
  | v => rule v

mutual
/-- Converts a value; null and unknown values stay as they are. -/
def convert : TypeSpec → Value → Conversion Value
  | .any => .ok
  | .string => unlessOpen convertString
  | .number => unlessOpen convertNumber
  | .bool => unlessOpen convertBool
  | .list element => unlessOpen fun v => match v.elements? with
    | some items => Value.list <$> items.mapM (convert element)
    | none => mismatch (.list element) v
  | .set element => unlessOpen fun v => match v.elements? with
    | some items => Value.list <$> items.foldlM (fun values item => do
      return addUnique values (← convert element item)) []
    | none => mismatch (.set element) v
  | .map element => unlessOpen fun v => match v with
    | .object entries => Value.object <$> entries.mapM fun (name, v) => do
      return (name, ← convert element v)
    | v => mismatch (.map element) v
  | .tuple elements => unlessOpen fun v => match v with
    | .list items =>
      if elements.length = items.length then Value.list <$> convertTuple elements items
      else .error (.tupleLength elements.length items.length)
    | v => mismatch (.tuple elements) v
  | .object attributes => unlessOpen fun v => match v with
    | .object entries => Value.object <$> convertAttributes attributes entries
    | v => mismatch (.object attributes) v

/-- Converts each item to the type at its place. -/
def convertTuple : List TypeSpec → List Value → Conversion (List Value)
  | type :: types, v :: vs => do
    let w ← convert type v
    return w :: (← convertTuple types vs)
  | _, _ => .ok []

/-- Converts the declared attributes in their order; others are dropped. -/
def convertAttributes : List (String × AttributeSpec) → Entries Value →
    Conversion (List (String × Value))
  | [], _ => .ok []
  | (name, a) :: as, entries => do
    let w ← convertAttribute name a (entries.get? name)
    return (name, w) :: (← convertAttributes as entries)

/-- Converts the value of an attribute; an optional one that is absent is null. -/
def convertAttribute (name : String) : AttributeSpec → Option Value → Conversion Value
  | .required type, v? => match v? with
    | some v => convert type v
    | none => .error (.missingAttribute name)
  | .optional type _, v? => match v? with
    | some v => convert type v
    | none => .ok .null
end

mutual
/-- Fills in the defaults of optional attributes that are absent or null, at every depth. -/
def applyDefaults : TypeSpec → Value → Value
  | .object attributes, v => match v with
    | .object entries => .object (applyAttributes attributes entries)
    | v => v
  | .list element, v => match v with
    | .list items => .list (items.map (applyDefaults element))
    | v => v
  | .set element, v => match v with
    | .list items => .list (items.map (applyDefaults element))
    | v => v
  | .map element, v => match v with
    | .object entries => .object (entries.map fun (name, v) => (name, applyDefaults element v))
    | v => v
  | .tuple elements, v => match v with
    | .list items => .list (applyTuple elements items)
    | v => v
  | _, v => v

/-- Fills in the defaults of each item by the type at its place. -/
def applyTuple : List TypeSpec → List Value → List Value
  | type :: types, v :: vs => applyDefaults type v :: applyTuple types vs
  | _, vs => vs

/-- Fills in the defaults of each attribute. -/
def applyAttributes : List (String × AttributeSpec) → Entries Value → Entries Value
  | [], entries => entries
  | (name, a) :: as, entries =>
    applyAttributes as (match applyAttribute a ((entries.get? name).filter fun v => !v.isNull) with
      | some v => entries.insert name v
      | none => entries)

/-- The value of an attribute that has one or else a default. -/
def applyAttribute : AttributeSpec → Option Value → Option Value
  | .required type, v? => match v? with
    | some v => some (applyDefaults type v)
    | none => none
  | .optional type default?, v? => match v?.or default? with
    | some v => some (applyDefaults type v)
    | none => none
end

theorem convert_null (type : TypeSpec) : type.convert .null = .ok .null := by
  cases type <;> simp [convert, unlessOpen]

theorem convert_unknown (type : TypeSpec) : type.convert .unknown = .ok .unknown := by
  cases type <;> simp [convert, unlessOpen]

theorem applyDefaults_unknown (type : TypeSpec) : type.applyDefaults .unknown = .unknown := by
  cases type <;> simp [applyDefaults]

end TypeSpec
end Preflight

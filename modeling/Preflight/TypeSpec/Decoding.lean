import Preflight.TypeSpec.Basic

/-!
# Reading types

A type is written as an expression or as a string that holds one (`TypeSpec.decode`). The
constructors are calls; `optional` is one only inside an object type, where its second argument is
evaluated on its own and converted to the attribute's type.
-/

namespace Preflight

/-- Why an expression is no type. -/
inductive TypeError where
  | unparsable (text : String)
  | unknownType (name : String)
  | invalidArguments (constructor expected : String)
  | misplacedOptional
  | invalidDefault (name message : String)
  deriving DecidableEq, Repr

/-- How a cause is worded. -/
def TypeError.message : TypeError → String
  | .unparsable text => "unable to parse type expression " ++ Text.quoted text
  | .unknownType name => Text.quoted name ++ " is not a valid type"
  | .invalidArguments constructor expected =>
    "type constructor " ++ Text.quoted constructor ++ " requires " ++ expected
  | .misplacedOptional => "optional() is only allowed for object attributes"
  | .invalidDefault name message =>
    "invalid default value for optional attribute " ++ Text.quoted name ++ ": " ++ message

/-- The name of an object key that is written as a name or as a string. -/
def Key.fixedName? : Key → Option String
  | .name n => some n
  | .expr (.string s) => some s
  | .expr (.variable n) => some n
  | _ => none

namespace TypeSpec

/-- The type that a word stands for. -/
def ofWord? : String → Option TypeSpec
  | "string" => some .string
  | "number" => some .number
  | "bool" => some .bool
  | "any" => some .any
  | _ => none

/-- Why a call is no type, if its arguments are not the expected ones. -/
def refusal (function : String) : TypeError :=
  match function with
  | "optional" => .misplacedOptional
  | "list" | "set" | "map" => .invalidArguments function "exactly one element type"
  | "tuple" => .invalidArguments function "a list of element types"
  | "object" => .invalidArguments function "an object of attribute types"
  | _ => .unknownType function

/-- The default value of an optional attribute. -/
def decodeDefault (name : String) (type : TypeSpec) (e : Expr) : Except TypeError Value :=
  match e.eval [] with
  | .error failure => .error (.invalidDefault name failure.message)
  | .ok d => match type.convert (.ofDatum d) with
    | .error err => .error (.invalidDefault name err.message)
    | .ok v => .ok v

mutual
/-- The type that an expression writes. -/
def ofExpr : Expr → Except TypeError TypeSpec
  | .variable word => match ofWord? word with
    | some type => .ok type
    | none => .error (.unknownType word)
  | .paren inner => ofExpr inner
  | .call function args expandFinal => match args with
    | [e] =>
      if function = "list" then list <$> ofExpr e
      else if function = "set" then set <$> ofExpr e
      else if function = "map" then map <$> ofExpr e
      else match e with
        | .array elements =>
          if function = "tuple" then tuple <$> ofExprs elements else .error (refusal function)
        | .object items =>
          if function = "object" then
            (fun as => object (Entries.ofList as)) <$>
              ofItems (Expr.call function [.object items] expandFinal).text items
          else .error (refusal function)
        | _ => .error (refusal function)
    | _ => .error (refusal function)
  | e => .error (.unparsable e.text)

/-- The types that expressions write. -/
def ofExprs : List Expr → Except TypeError (List TypeSpec)
  | [] => .ok []
  | e :: es => do
    let type ← ofExpr e
    return type :: (← ofExprs es)

/-- The attributes that the entries of an object type write; `whole` is the text of the type. -/
def ofItems (whole : String) : List (Key × Expr) → Except TypeError (List (String × AttributeSpec))
  | [] => .ok []
  | (key, e) :: items => match key.fixedName? with
    | none => .error (.unparsable whole)
    | some name => do
      let a ← match e with
        | .call function args expandFinal =>
          if function = "optional" then ofOptional name args
          else AttributeSpec.required <$> ofExpr (.call function args expandFinal)
        | e => AttributeSpec.required <$> ofExpr e
      return (name, a) :: (← ofItems whole items)

/-- The optional attribute that the arguments of `optional` write. -/
def ofOptional (name : String) : List Expr → Except TypeError AttributeSpec
  | [e] => (AttributeSpec.optional · none) <$> ofExpr e
  | [e, default] => do
    let type ← ofExpr e
    return .optional type (some (← decodeDefault name type default))
  | _ => .error (.invalidArguments "optional" "a type and an optional default value")
end

/-- The type that an expression writes, or a string literal holds. -/
def decode : Expr → Except TypeError TypeSpec
  | .string text => match Expr.parse? (Text.trim text) with
    | some e => ofExpr e
    | none => .error (.unparsable text)
  | e => ofExpr e

end TypeSpec
end Preflight

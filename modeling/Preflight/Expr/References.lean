import Preflight.Expr.Printer

/-!
# What an expression mentions

The references and calls of an expression, from left to right.

* A reference is a variable with the attribute names right behind it; its text is the whole
  traversal.
* Names bound by an enclosing `for` are no references. The collection of a `for` lies outside its
  binding.
-/

namespace Preflight

/-- A reference: a variable, the attribute names right behind it, and its text as written. -/
structure Reference where
  root : String
  names : List String
  text : String
  deriving DecidableEq, Repr

/-- The path that a reference follows. -/
def Reference.path (r : Reference) : List String := r.root :: r.names

/-- Something that an expression mentions. -/
inductive Mention where
  | reference (reference : Reference)
  | call (function : String)
  deriving DecidableEq, Repr

/-- The attribute names at the start of a path. -/
def staticNames : List Access → List String
  | .field name :: path => name :: staticNames path
  | _ => []

/-- The reference made by a variable with accesses, unless its name is bound. -/
def referTo (bound : List String) (root : String) (path : List Access) (text : String) :
    List Mention :=
  if bound.contains root then [] else [.reference ⟨root, staticNames path, text⟩]

mutual
/-- What an expression mentions inside a binding of names. -/
def Expr.mentions (bound : List String) : Expr → List Mention
  | .null | .bool _ | .number _ | .string _ => []
  | .array items => itemMentions bound items
  | .object items => entryMentions bound items
  | .template _ parts? => optionalMentions bound parts?
  | .variable name => referTo bound name [] name
  | .traversal (.variable root) path =>
    referTo bound root path (Expr.traversal (.variable root) path).text ++ pathMentions bound path
  | .traversal root path => root.mentions bound ++ pathMentions bound path
  | .call function args _ => .call function :: itemMentions bound args
  | .paren inner => inner.mentions bound
  | .conditional cond yes no => cond.mentions bound ++ yes.mentions bound ++ no.mentions bound
  | .unary _ operand => operand.mentions bound
  | .binary _ lhs rhs => lhs.mentions bound ++ rhs.mentions bound
  | .forList key? value collection body cond? =>
    let inner := boundNames key? value ++ bound
    collection.mentions bound ++ body.mentions inner ++ condMentions inner cond?
  | .forObject key? value collection key body _ cond? =>
    let inner := boundNames key? value ++ bound
    collection.mentions bound ++ key.mentions inner ++ body.mentions inner ++
      condMentions inner cond?

/-- What is mentioned in the items of a list. -/
def itemMentions (bound : List String) : List Expr → List Mention
  | [] => []
  | e :: es => e.mentions bound ++ itemMentions bound es

/-- What is mentioned in the entries of an object. -/
def entryMentions (bound : List String) : List (Key × Expr) → List Mention
  | [] => []
  | (k, e) :: es => k.mentions bound ++ e.mentions bound ++ entryMentions bound es

/-- What is mentioned in an object key. -/
def Key.mentions (bound : List String) : Key → List Mention
  | .name _ => []
  | .expr e => e.mentions bound

/-- What is mentioned in an access. -/
def Access.mentions (bound : List String) : Access → List Mention
  | .index e => e.mentions bound
  | _ => []

/-- What is mentioned in the accesses of a traversal. -/
def pathMentions (bound : List String) : List Access → List Mention
  | [] => []
  | a :: as => a.mentions bound ++ pathMentions bound as

/-- What is mentioned in the condition of a `for`. -/
def condMentions (bound : List String) : Option Expr → List Mention
  | none => []
  | some e => e.mentions bound

/-- What is mentioned in a part of a template. -/
def Part.mentions (bound : List String) : Part → List Mention
  | .literal _ => []
  | .interpolation e => e.mentions bound
  | .branch cond yes no =>
    cond.mentions bound ++ partMentions bound yes ++ optionalMentions bound no
  | .loop key? value collection body =>
    collection.mentions bound ++ partMentions (boundNames key? value ++ bound) body

/-- What is mentioned in the parts of a template. -/
def partMentions (bound : List String) : List Part → List Mention
  | [] => []
  | p :: ps => p.mentions bound ++ partMentions bound ps

/-- What is mentioned in parts that may be missing. -/
def optionalMentions (bound : List String) : Option (List Part) → List Mention
  | none => []
  | some ps => partMentions bound ps
end

/-- The reference that a mention is. -/
def Mention.reference? : Mention → Option Reference
  | .reference r => some r
  | .call _ => none

/-- The function that a mention calls. -/
def Mention.call? : Mention → Option String
  | .reference _ => none
  | .call function => some function

/-- The references of an expression, in order. -/
def Expr.references (e : Expr) : List Reference := (e.mentions []).filterMap Mention.reference?

/-- The functions that an expression calls, in order. -/
def Expr.calls (e : Expr) : List String := (e.mentions []).filterMap Mention.call?

end Preflight

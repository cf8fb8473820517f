import Preflight.Expr.Evaluation
import Preflight.Expr.References
import Preflight.Scope
import Preflight.Text.Quoted

/-!
# Evaluating in a scope

The expressions of a block are evaluated in a context: the block's own locals before the scope of
its module.

* First every reference is looked up. A root that is not declared is an error; a reference to
  something unknown makes the whole expression unknown.
* Only if everything is known the expression is evaluated.
-/

namespace Preflight

/-- A scope with the locals of a block before it. -/
structure Context where
  scope : Scope
  locals : Entries Value

/-- Why an expression has no value in a context. -/
inductive EvalError where
  | undefinedVariable (name : String)
  | expression (failure : EvalFailure)

/-- What an error is about. -/
def EvalError.summary : EvalError → String
  | .undefinedVariable _ => "Unknown variable"
  | .expression _ => "Invalid expression"

/-- What an error says. -/
def EvalError.message : EvalError → String
  | .undefinedVariable name => "There is no variable named " ++ Text.quoted name ++ "."
  | .expression failure => failure.message

namespace Context

/-- The value of a root variable; locals come first. -/
def root? (c : Context) (name : String) : Option Value :=
  match c.locals.get? name with
  | some v => some v
  | none => c.scope.get? name

/-- What a reference finds. -/
def lookup (c : Context) (r : Reference) : Lookup :=
  match c.root? r.root with
  | none => .undeclared
  | some v => c.scope.follow [r.root] v r.names

/-- The variables with plain data for their values. -/
def env (c : Context) : Env := (c.locals ++ c.scope.roots).map fun (name, v) => (name, v.toDatum)

/-- Whether a reference has no root. -/
def isUndeclared (c : Context) (r : Reference) : Bool :=
  match c.lookup r with
  | .undeclared => true
  | _ => false

/-- Whether a reference finds something of which not everything is known. -/
def isOpen (c : Context) (r : Reference) : Bool :=
  match c.lookup r with
  | .unknown => true
  | .found v => !v.isWhollyKnown
  | _ => false

/-- The value of an expression. -/
def evaluate (c : Context) (e : Expr) : Except EvalError Value :=
  match e.references.find? c.isUndeclared with
  | some r => .error (.undefinedVariable r.root)
  | none =>
    if e.references.any c.isOpen then .ok .unknown
    else match e.eval c.env with
      | .ok d => .ok (.ofDatum d)
      | .error f => .error (.expression f)

/-- The value of an expression, unknown if it has none. -/
def value (c : Context) (e : Expr) : Value :=
  match c.evaluate e with
  | .ok v => v
  | .error _ => .unknown

end Context
end Preflight

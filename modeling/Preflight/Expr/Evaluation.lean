import Preflight.Expr.Printer
import Preflight.Value.Text

/-!
# Evaluating expressions

The value of an expression whose variables stand for plain data (`Expr.eval`).

* Evaluation goes from left to right and stops at the first failure. A conditional evaluates only
  the chosen side; `&&` and `||` evaluate both.
* There are no functions.
* A template that is a single interpolation has the value of that expression; every other template
  is a string. A template whose text cannot be read has no value.
* A failure names the expression that directly encloses the failing one, or the failing one itself
  if nothing encloses it.
-/

namespace Preflight

/-- The values of variables; the first entry of a name counts. -/
abbrev Env := List (String × Datum)

/-- Why an expression has no value. -/
inductive EvalCause where
  | undefinedVariable (name : String)
  | undefinedFunction (name : String)
  | unexpected (value : Datum) (expected : String)
  | outOfBounds (index : Nat)
  | noSuchKey (key : String)
  | unaryOperand (op : UnaryOp) (operand : Datum)
  | binaryOperands (op : BinaryOp) (lhs rhs : Datum)
  | keyExists (key : String)
  | unreadableTemplate

/-- A failure: its cause and the expression it names. -/
structure EvalFailure where
  cause : EvalCause
  place : Expr

/-- A text between grave accents. -/
def graveQuoted (s : String) : String := "\x60" ++ s ++ "\x60"

/-- How a cause is worded. -/
def EvalCause.message : EvalCause → String
  | .undefinedVariable name => "undefined variable " ++ graveQuoted name
  | .undefinedFunction name => "undefined function " ++ graveQuoted name
  | .unexpected value expected =>
    "unexpected value " ++ graveQuoted value.text ++ ", expected " ++ expected
  | .outOfBounds index => "index out of bounds: " ++ toString index
  | .noSuchKey key => "no such key: " ++ graveQuoted key
  | .unaryOperand op operand =>
    "unary operator " ++ graveQuoted op.text ++ " is not applicable to " ++
      graveQuoted operand.text
  | .binaryOperands op lhs rhs =>
    "binary operator " ++ graveQuoted op.text ++ " is not applicable to " ++
      graveQuoted lhs.text ++ " and " ++ graveQuoted rhs.text
  | .keyExists key => "key " ++ graveQuoted key ++ " already exists"
  | .unreadableTemplate => "unreadable template"

/-- How a failure is worded. -/
def EvalFailure.message (f : EvalFailure) : String :=
  f.cause.message ++ " in expression " ++ graveQuoted f.place.text

/-- The result of an evaluation. -/
abbrev Eval := Except EvalFailure

/-- A failure that names an expression. -/
def failAt {α : Type} (place : Expr) (cause : EvalCause) : Eval α := .error ⟨cause, place⟩

/-- A truth value, or a failure. -/
def Datum.truth (place : Expr) : Datum → Eval Bool
  | .bool b => .ok b
  | v => failAt place (.unexpected v "a boolean")

/-- An object key, or a failure. -/
def Datum.key (place : Expr) : Datum → Eval String
  | .string s => .ok s
  | .bool b => .ok (boolText b)
  | .number n => .ok n.text
  | v => failAt place (.unexpected v "a string, boolean or number")

/-- The value of an attribute of an object. -/
def Datum.field (place : Expr) (v : Datum) (name : String) : Eval Datum :=
  match v with
  | .object entries => match Entries.get? entries name with
    | some w => .ok w
    | none => failAt place (.noSuchKey name)
  | v => failAt place (.unexpected v "an object")

/-- The item at a position of a list. -/
def Datum.position (place : Expr) (v : Datum) (n : Nat) : Eval Datum :=
  match v with
  | .list items => match items[n]? with
    | some w => .ok w
    | none => failAt place (.outOfBounds n)
  | v => failAt place (.unexpected v "an array")

/-- The part of a list or object that an index selects. -/
def Datum.index (place : Expr) (v : Datum) : Datum → Eval Datum
  | .string key => v.field place key
  | .number n => match n.natural? with
    | some i => v.position place i
    | none => failAt place (.unexpected (.number n) "an unsigned integer")
  | i => failAt place (.unexpected i "an unsigned integer or string")

/-- Follows attribute names. -/
def Datum.fields (place : Expr) : List String → Datum → Eval Datum
  | [], v => .ok v
  | name :: names, v => do fields place names (← v.field place name)

/-- The items that `.*` and `[*]` go over. -/
def Datum.splatItems : Datum → List Datum
  | .null => []
  | .list items => items
  | v => [v]

/-- The members of a list or object, each with its position or key. -/
def Datum.members (place : Expr) : Datum → Eval (List (Datum × Datum))
  | .list items => .ok (items.mapIdx fun i v => (.number (.int i), v))
  | .object entries => .ok (entries.map fun (k, v) => (.string k, v))
  | v => failAt place (.unexpected v "an array or object")

/-- Binds the names of a `for` to a member. -/
def Env.bind (key? : Option String) (value : String) (env : Env) (member : Datum × Datum) : Env :=
  (value, member.2) :: ((key?.map fun k => (k, member.1)).toList ++ env)

/-- Adds a member to an object under construction; in groups, members of one key gather in a
list. -/
def addMember (place : Expr) (grouping : Bool) (entries : List (String × Datum)) (key : String)
    (value : Datum) : Eval (List (String × Datum)) :=
  match Entries.get? entries key with
  | none => .ok (Entries.insert entries key (if grouping then .list [value] else value))
  | some (.list group) =>
    if grouping then .ok (Entries.insert entries key (.list (group ++ [value])))
    else failAt place (.keyExists key)
  | some _ => failAt place (.keyExists key)

/-- The result of an operator in front of its operand. -/
def UnaryOp.apply (place : Expr) : UnaryOp → Datum → Eval Datum
  | .neg, .number n => .ok (.number n.neg)
  | .not, .bool b => .ok (.bool !b)
  | op, v => failAt place (.unaryOperand op v)

/-- The result of an operator between two numbers. -/
def BinaryOp.onNumbers? (a b : Number) : BinaryOp → Option Datum
  | .lessEq => some (.bool (a.lessEq b))
  | .greaterEq => some (.bool (b.lessEq a))
  | .less => some (.bool (a.less b))
  | .greater => some (.bool (b.less a))
  | .add => some (.number (a.add b))
  | .sub => some (.number (a.sub b))
  | .mul => some (.number (a.mul b))
  | .div => some (.number (a.div b))
  | .rem => some (.number (a.rem b))
  | _ => none

/-- The result of an operator between two truth values. -/
def BinaryOp.onTruths? (a b : Bool) : BinaryOp → Option Datum
  | .and => some (.bool (a && b))
  | .or => some (.bool (a || b))
  | _ => none

/-- The result of an operator between two operands. -/
def BinaryOp.apply (place : Expr) (op : BinaryOp) (lhs rhs : Datum) : Eval Datum :=
  let result := match op, lhs, rhs with
    | .eq, a, b => some (.bool (a.equal b))
    | .notEq, a, b => some (.bool !(a.equal b))
    | op, .number a, .number b => op.onNumbers? a b
    | op, .bool a, .bool b => op.onTruths? a b
    | _, _, _ => none
  match result with
  | some v => .ok v
  | none => failAt place (.binaryOperands op lhs rhs)

/-- How a value shows inside a template. -/
def Datum.templateText : Datum → String
  | .string s => s
  | v => v.text

mutual
/-- The value of an expression; `outer` is the expression that directly encloses it. -/
def Expr.evalIn (env : Env) (outer : Option Expr) : Expr → Eval Datum
  | .null => .ok .null
  | .bool b => .ok (.bool b)
  | .number n => .ok (.number n)
  | .string s => .ok (.string s)
  | .array items => do
    return .list (← evalItems env (.array items) items)
  | .object items => do
    return .object (Entries.ofList (← evalEntries env outer (.object items) items))
  | .template form (some [.interpolation e]) =>
    e.evalIn env (some (.template form (some [.interpolation e])))
  | .template form (some parts) => do
    let node := Expr.template form (some parts)
    return .string (← evalParts env node (outer.getD node) parts)
  | .template form none =>
    failAt (outer.getD (.template form none)) .unreadableTemplate
  | .variable name => match Entries.get? env name with
    | some v => .ok v
    | none => failAt (outer.getD (.variable name)) (.undefinedVariable name)
  | .traversal root path => do
    let node := Expr.traversal root path
    evalPath env node (outer.getD node) path (← root.evalIn env (some node))
  | .call function args expandFinal =>
    failAt (outer.getD (.call function args expandFinal)) (.undefinedFunction function)
  | .paren inner => inner.evalIn env (some (.paren inner))
  | .conditional cond yes no => do
    let node := Expr.conditional cond yes no
    if ← (← cond.evalIn env (some node)).truth (outer.getD node) then yes.evalIn env (some node)
    else no.evalIn env (some node)
  | .unary op operand => do
    let node := Expr.unary op operand
    op.apply (outer.getD node) (← operand.evalIn env (some node))
  | .binary op lhs rhs => do
    let node := Expr.binary op lhs rhs
    let a ← lhs.evalIn env (some node)
    let b ← rhs.evalIn env (some node)
    op.apply (outer.getD node) a b
  | .forList key? value collection body cond? => do
    let node := Expr.forList key? value collection body cond?
    let members ← (← collection.evalIn env (some node)).members (outer.getD node)
    let results ← members.mapM fun member => do
      let inner := Env.bind key? value env member
      if ← evalCond inner node cond? then return some (← body.evalIn inner (some node))
      else return none
    return .list (results.filterMap id)
  | .forObject key? value collection key body grouping cond? => do
    let node := Expr.forObject key? value collection key body grouping cond?
    let members ← (← collection.evalIn env (some node)).members (outer.getD node)
    let entries ← members.foldlM (fun entries member => do
      let inner := Env.bind key? value env member
      if ← evalCond inner node cond? then do
        let k ← (← key.evalIn inner (some node)).key node
        addMember node grouping entries k (← body.evalIn inner (some node))
      else return entries) []
    return .object entries
termination_by structural e => e

/-- The values of the items of a list. -/
def evalItems (env : Env) (node : Expr) : List Expr → Eval (List Datum)
  | [] => .ok []
  | e :: es => do
    let v ← e.evalIn env (some node)
    return v :: (← evalItems env node es)
termination_by structural es => es

/-- The keys and values of the entries of an object. -/
def evalEntries (env : Env) (outer : Option Expr) (node : Expr) :
    List (Key × Expr) → Eval (List (String × Datum))
  | [] => .ok []
  | (k, e) :: es => do
    let key ← k.evalIn env outer node
    let v ← e.evalIn env (some node)
    return (key, v) :: (← evalEntries env outer node es)
termination_by structural es => es

/-- The value of an object key. -/
def Key.evalIn (env : Env) (outer : Option Expr) (node : Expr) : Key → Eval String
  | .name n => .ok n
  | .expr e => do (← e.evalIn env (some node)).key (outer.getD node)
termination_by structural k => k

/-- Follows the accesses of a traversal. -/
def evalPath (env : Env) (node place : Expr) : List Access → Datum → Eval Datum
  | [], v => .ok v
  | .field name :: path, v => do evalPath env node place path (← v.field place name)
  | .index e :: path, v => do
    let i ← e.evalIn env (some node)
    evalPath env node place path (← v.index place i)
  | .position n :: path, v => do evalPath env node place path (← v.position place n)
  | .eachField names :: path, v => do
    let items ← v.splatItems.mapM (Datum.fields place names)
    evalPath env node place path (.list items)
  | .each :: path, v => do
    return .list (← v.splatItems.mapM (evalPath env node place path))
termination_by structural path => path

/-- Whether a member of a `for` passes its condition. -/
def evalCond (env : Env) (node : Expr) : Option Expr → Eval Bool
  | none => .ok true
  | some e => do (← e.evalIn env (some node)).truth node
termination_by structural cond? => cond?

/-- The text of the parts of a template; `place` is what failures of the template itself name. -/
def evalParts (env : Env) (node place : Expr) : List Part → Eval String
  | [] => .ok ""
  | p :: ps => do
    let text ← p.evalIn env node place
    return text ++ (← evalParts env node place ps)
termination_by structural parts => parts

/-- The text of a part of a template. -/
def Part.evalIn (env : Env) (node place : Expr) : Part → Eval String
  | .literal text => .ok text
  | .interpolation e => return (← e.evalIn env (some node)).templateText
  | .branch cond yes no => do
    if ← (← cond.evalIn env (some node)).truth place then evalParts env node place yes
    else evalOtherwise env node place no
  | .loop key? value collection body => do
    let members ← (← collection.evalIn env (some node)).members place
    let texts ← members.mapM fun member =>
      evalParts (Env.bind key? value env member) node node body
    return String.join texts
termination_by structural p => p

/-- The text of the other side of a branch. -/
def evalOtherwise (env : Env) (node place : Expr) : Option (List Part) → Eval String
  | none => .ok ""
  | some ps => evalParts env node place ps
termination_by structural ps? => ps?
end

/-- The value of an expression on its own. -/
def Expr.eval (env : Env) (e : Expr) : Eval Datum := e.evalIn env none

end Preflight

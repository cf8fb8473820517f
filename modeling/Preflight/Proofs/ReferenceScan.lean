import Preflight.Proofs.Occurrences

/-!
# Scanning an expression for what it refers to

One walk over an expression with a collector finds its references and its calls.

* The `Collector` keeps what has been found and a stack of the names that are bound where the walk is.
  The walk pushes the names of a `for` behind its collection and pops them behind its body.
* `Expr.visit_eq`: a walk adds the mentions of the expression to the collector and leaves the stack as
  it found it.
* `Expr.collect_references`: the walk from an empty collector finds the free references and the calls
  of the expression in the order of their places, each once, and the stack is empty again at its end.
-/

namespace Preflight

/-! ### The walk -/

/-- What a walk over an expression has found, and the names that are bound where it is: one list for each
enclosing `for`, the innermost first. -/
structure Collector where
  paths : List (List String)
  texts : List String
  functions : List String
  bound : List (List String)

/-- The static path of a traversal. Without a variable at its root it has none. -/
def traversalPath : Expr → List Access → List String
  | .variable x, path => x :: staticNames path
  | _, _ => []

namespace Collector

/-- Nothing found, nothing bound. -/
def empty : Collector := ⟨[], [], [], []⟩

/-- Whether an enclosing `for` binds a name. -/
def isBound (c : Collector) (name : String) : Bool := c.bound.flatten.contains name

/-- Takes note of a traversal, unless its root is bound or no variable. -/
def visitTraversal (root : Expr) (path : List Access) (c : Collector) : Collector :=
  match traversalPath root path with
  | [] => c
  | x :: names =>
    if c.isBound x then c
    else { c with
      paths := c.paths ++ [x :: names]
      texts := c.texts ++ [(Expr.traversal root path).text] }

/-- Takes note of a call. -/
def visitCall (function : String) (c : Collector) : Collector :=
  { c with functions := c.functions ++ [function] }

/-- Enters the body of a `for`. -/
def enterFor (names : List String) (c : Collector) : Collector := { c with bound := names :: c.bound }

/-- Leaves the body of a `for`. -/
def leaveFor (c : Collector) : Collector := { c with bound := c.bound.tail }

end Collector

mutual
/-- Walks over an expression. -/
def Expr.visit : Expr → Collector → Collector
  | .null, c | .bool _, c | .number _, c | .string _, c => c
  | .array items, c => visitItems items c
  | .object items, c => visitEntries items c
  | .template _ parts?, c => visitOptional parts? c
  | .variable x, c => c.visitTraversal (.variable x) []
  | .traversal (.variable x) path, c => visitPath path (c.visitTraversal (.variable x) path)
  | .traversal root path, c => visitPath path (root.visit (c.visitTraversal root path))
  | .call function args _, c => visitItems args (c.visitCall function)
  | .paren inner, c => inner.visit c
  | .conditional cond yes no, c => no.visit (yes.visit (cond.visit c))
  | .unary _ operand, c => operand.visit c
  | .binary _ lhs rhs, c => rhs.visit (lhs.visit c)
  | .forList key? value collection body cond?, c =>
    (visitCond cond? (body.visit ((collection.visit c).enterFor (boundNames key? value)))).leaveFor
  | .forObject key? value collection key body _ cond?, c =>
    (visitCond cond? (body.visit (key.visit
      ((collection.visit c).enterFor (boundNames key? value))))).leaveFor

/-- Walks over expressions. -/
def visitItems : List Expr → Collector → Collector
  | [], c => c
  | e :: es, c => visitItems es (e.visit c)

/-- Walks over the entries of an object. -/
def visitEntries : List (Key × Expr) → Collector → Collector
  | [], c => c
  | (k, e) :: es, c => visitEntries es (e.visit (k.visit c))

/-- Walks over an object key. -/
def Key.visit : Key → Collector → Collector
  | .name _, c => c
  | .expr e, c => e.visit c

/-- Walks over the index operand of an access. -/
def Access.visit : Access → Collector → Collector
  | .index e, c => e.visit c
  | _, c => c

/-- Walks over the index operands of a traversal. -/
def visitPath : List Access → Collector → Collector
  | [], c => c
  | a :: as, c => visitPath as (a.visit c)

/-- Walks over the condition of a `for`. -/
def visitCond : Option Expr → Collector → Collector
  | none, c => c
  | some e, c => e.visit c

/-- Walks over a part of a template. -/
def Part.visit : Part → Collector → Collector
  | .literal _, c => c
  | .interpolation e, c => e.visit c
  | .branch cond yes no, c => visitOptional no (visitParts yes (cond.visit c))
  | .loop key? value collection body, c =>
    (visitParts body ((collection.visit c).enterFor (boundNames key? value))).leaveFor

/-- Walks over the parts of a template. -/
def visitParts : List Part → Collector → Collector
  | [], c => c
  | p :: ps, c => visitParts ps (p.visit c)

/-- Walks over parts that may be missing. -/
def visitOptional : Option (List Part) → Collector → Collector
  | none, c => c
  | some ps, c => visitParts ps c
end

/-- What a walk over an expression collects. -/
def Expr.collect (e : Expr) : Collector := e.visit .empty

/-! ### What a walk adds -/

namespace Collector

/-- Adds mentions in their order. -/
def record (c : Collector) (ms : List Mention) : Collector :=
  { c with
    paths := c.paths ++ (ms.filterMap Mention.reference?).map Reference.path
    texts := c.texts ++ (ms.filterMap Mention.reference?).map Reference.text
    functions := c.functions ++ ms.filterMap Mention.call? }

@[simp] theorem record_nil (c : Collector) : c.record [] = c := by simp [record]

@[simp] theorem record_record (c : Collector) (ms ns : List Mention) :
    (c.record ms).record ns = c.record (ms ++ ns) := by
  simp [record]

@[simp] theorem bound_record (c : Collector) (ms : List Mention) : (c.record ms).bound = c.bound := rfl

@[simp] theorem bound_enterFor (names : List String) (c : Collector) :
    (c.enterFor names).bound = names :: c.bound := rfl

@[simp] theorem leaveFor_record_enterFor (names : List String) (c : Collector) (ms : List Mention) :
    ((c.enterFor names).record ms).leaveFor = c.record ms := rfl

theorem visitCall_eq (function : String) (c : Collector) :
    c.visitCall function = c.record [.call function] := by
  simp [visitCall, record, Mention.reference?, Mention.call?]

theorem visitTraversal_variable (x : String) (path : List Access) (c : Collector) :
    c.visitTraversal (.variable x) path =
      c.record (referTo c.bound.flatten x path (Expr.traversal (.variable x) path).text) := by
  by_cases hb : c.bound.flatten.contains x = true
  · simp only [visitTraversal, traversalPath, isBound, referTo, hb, if_true, record_nil]
  · simp only [visitTraversal, traversalPath, isBound, referTo, hb]
    simp [record, Mention.reference?, Mention.call?, Reference.path]

theorem visitTraversal_computed {root : Expr} (h : ∀ x, root ≠ .variable x) (path : List Access)
    (c : Collector) : c.visitTraversal root path = c := by
  have hpath : traversalPath root path = [] := by
    rw [traversalPath]
    exact fun x hx => h x hx
  rw [visitTraversal, hpath]

end Collector

theorem Expr.visit_traversal {root : Expr} (h : ∀ x, root ≠ .variable x) (path : List Access)
    (c : Collector) : (Expr.traversal root path).visit c = visitPath path (root.visit c) := by
  rw [Expr.visit, Collector.visitTraversal_computed h]
  exact fun x hx => h x hx

@[simp] theorem Expr.text_traversal_nil (x : String) :
    (Expr.traversal (.variable x) []).text = x := by
  rw [Expr.text, Expr.render, renderPath]
  exact String.append_empty

mutual
/-- A walk over an expression adds its mentions and leaves the stack as it was. -/
theorem Expr.visit_eq : (e : Expr) → (c : Collector) →
    e.visit c = c.record (e.mentions c.bound.flatten)
  | .null, c | .bool _, c | .number _, c | .string _, c => by simp [Expr.visit, Expr.mentions]
  | .array items, c => by rw [Expr.visit, Expr.mentions, visitItems_eq]
  | .object items, c => by rw [Expr.visit, Expr.mentions, visitEntries_eq]
  | .template _ parts?, c => by rw [Expr.visit, Expr.mentions, visitOptional_eq]
  | .variable x, c => by
    rw [Expr.visit, Expr.mentions, Collector.visitTraversal_variable, Expr.text_traversal_nil]
  | .traversal root path, c => by
    by_cases hv : ∃ x, root = .variable x
    · obtain ⟨x, rfl⟩ := hv
      rw [Expr.visit, Expr.mentions, Collector.visitTraversal_variable, visitPath_eq]
      simp
    · have hroot : ∀ x, root ≠ .variable x := fun x hx => hv ⟨x, hx⟩
      rw [Expr.visit_traversal hroot, Expr.mentions_traversal hroot, root.visit_eq, visitPath_eq]
      simp
  | .call function args _, c => by
    rw [Expr.visit, Expr.mentions, Collector.visitCall_eq, visitItems_eq]
    simp
  | .paren inner, c => by rw [Expr.visit, Expr.mentions, inner.visit_eq]
  | .conditional cond yes no, c => by
    simp [Expr.visit, Expr.mentions, cond.visit_eq, yes.visit_eq, no.visit_eq]
  | .unary _ operand, c => by rw [Expr.visit, Expr.mentions, operand.visit_eq]
  | .binary _ lhs rhs, c => by simp [Expr.visit, Expr.mentions, lhs.visit_eq, rhs.visit_eq]
  | .forList key? value collection body cond?, c => by
    simp [Expr.visit, Expr.mentions, collection.visit_eq, body.visit_eq, visitCond_eq]
  | .forObject key? value collection key body _ cond?, c => by
    simp [Expr.visit, Expr.mentions, collection.visit_eq, key.visit_eq, body.visit_eq, visitCond_eq]

theorem visitItems_eq : (es : List Expr) → (c : Collector) →
    visitItems es c = c.record (itemMentions c.bound.flatten es)
  | [], c => by simp [visitItems, itemMentions]
  | e :: es, c => by simp [visitItems, itemMentions, e.visit_eq, visitItems_eq es]

theorem visitEntries_eq : (es : List (Key × Expr)) → (c : Collector) →
    visitEntries es c = c.record (entryMentions c.bound.flatten es)
  | [], c => by simp [visitEntries, entryMentions]
  | (k, e) :: es, c => by
    simp [visitEntries, entryMentions, k.visit_eq, e.visit_eq, visitEntries_eq es]

theorem Key.visit_eq : (k : Key) → (c : Collector) → k.visit c = c.record (k.mentions c.bound.flatten)
  | .name _, c => by simp [Key.visit, Key.mentions]
  | .expr e, c => by rw [Key.visit, Key.mentions, e.visit_eq]

theorem Access.visit_eq : (a : Access) → (c : Collector) →
    a.visit c = c.record (a.mentions c.bound.flatten)
  | .index e, c => by rw [Access.visit, Access.mentions, e.visit_eq]
  | .field _, c | .position _, c | .eachField _, c | .each, c => by
    simp [Access.visit, Access.mentions]

theorem visitPath_eq : (path : List Access) → (c : Collector) →
    visitPath path c = c.record (pathMentions c.bound.flatten path)
  | [], c => by simp [visitPath, pathMentions]
  | a :: as, c => by simp [visitPath, pathMentions, a.visit_eq, visitPath_eq as]

theorem visitCond_eq : (cond? : Option Expr) → (c : Collector) →
    visitCond cond? c = c.record (condMentions c.bound.flatten cond?)
  | none, c => by simp [visitCond, condMentions]
  | some e, c => by rw [visitCond, condMentions, e.visit_eq]

theorem Part.visit_eq : (p : Part) → (c : Collector) →
    p.visit c = c.record (p.mentions c.bound.flatten)
  | .literal _, c => by simp [Part.visit, Part.mentions]
  | .interpolation e, c => by rw [Part.visit, Part.mentions, e.visit_eq]
  | .branch cond yes no, c => by
    simp [Part.visit, Part.mentions, cond.visit_eq, visitParts_eq yes, visitOptional_eq no]
  | .loop key? value collection body, c => by
    simp [Part.visit, Part.mentions, collection.visit_eq, visitParts_eq body]

theorem visitParts_eq : (ps : List Part) → (c : Collector) →
    visitParts ps c = c.record (partMentions c.bound.flatten ps)
  | [], c => by simp [visitParts, partMentions]
  | p :: ps, c => by simp [visitParts, partMentions, p.visit_eq, visitParts_eq ps]

theorem visitOptional_eq : (ps? : Option (List Part)) → (c : Collector) →
    visitOptional ps? c = c.record (optionalMentions c.bound.flatten ps?)
  | none, c => by simp [visitOptional, optionalMentions]
  | some ps, c => by rw [visitOptional, optionalMentions, visitParts_eq ps]
end

/-! ### What a whole scan finds -/

namespace Expr

/-- A reference stands free at a place of an expression. -/
def RefersAt (e : Expr) (p : List Nat) (r : Reference) : Prop :=
  ∃ bound x, ExprNode.At (.expr e) p bound (.expr x) ∧ x.Refers r ∧ r.root ∉ bound

/-- A call stands at a place of an expression. -/
def CallsAt (e : Expr) (p : List Nat) (function : String) : Prop :=
  ∃ bound args expandFinal, ExprNode.At (.expr e) p bound (.expr (.call function args expandFinal))

theorem references_inOrder (e : Expr) : InOrder e.RefersAt e.references := by
  refine ((ExprNode.mentions_inOrder (.expr e) []).filterMap Mention.reference?).congr fun p r => ?_
  constructor
  · rintro ⟨m, ⟨bound, k, hat, hm⟩, hr⟩
    rw [List.append_nil] at hm
    cases hm with
    | reference hx hb =>
      cases hr
      exact ⟨bound, _, hat, hx, hb⟩
    | call function args expandFinal => cases hr
  · rintro ⟨bound, x, hat, hx, hb⟩
    exact ⟨.reference r, ⟨bound, .expr x, hat, .reference hx (by rwa [List.append_nil])⟩, rfl⟩

theorem calls_inOrder (e : Expr) : InOrder e.CallsAt e.calls := by
  refine ((ExprNode.mentions_inOrder (.expr e) []).filterMap Mention.call?).congr fun p f => ?_
  constructor
  · rintro ⟨m, ⟨bound, k, hat, hm⟩, hf⟩
    cases hm with
    | reference hx hb => cases hf
    | call function args expandFinal =>
      cases hf
      exact ⟨bound, args, expandFinal, hat⟩
  · rintro ⟨bound, args, expandFinal, hat⟩
    exact ⟨.call f, ⟨bound, _, hat, .call f args expandFinal⟩, rfl⟩

theorem collect_eq (e : Expr) : e.collect =
    ⟨e.references.map Reference.path, e.references.map Reference.text, e.calls, []⟩ := by
  rw [collect, visit_eq]
  simp [Collector.record, Collector.empty, references, calls]

/-- A scan lists the paths of the free references, and beside them their texts, and the calls, each in
the order of their places and as often as they occur. At its end nothing is bound. -/
theorem collect_references (e : Expr) :
    InOrder e.RefersAt e.references ∧ e.collect.paths = e.references.map Reference.path ∧
      e.collect.texts = e.references.map Reference.text ∧
      InOrder e.CallsAt e.calls ∧ e.collect.functions = e.calls ∧ e.collect.bound = [] := by
  rw [collect_eq]
  exact ⟨e.references_inOrder, rfl, rfl, e.calls_inOrder, rfl, rfl⟩

end Expr

end Preflight

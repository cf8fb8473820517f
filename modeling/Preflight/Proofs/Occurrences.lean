import Mathlib.Data.List.Basic
import Preflight.Proofs.Noninterference

/-!
# Where an expression mentions something

The mentions of an expression are what stands at the places of its tree, in the order of the places.

* An `ExprNode` of the tree is an expression or a part of a template. `ExprNode.children` lists the
  nodes right below a node from left to right, each with the names that the node binds for it: a `for`
  binds its names for everything but its collection.
* `ExprNode.At` says which node is at a place and which names are bound there. A place is a list of
  positions, and places are in lexicographic order, so a node comes before what is below it.
* `Expr.Refers` says which reference an expression is: a variable with all the attribute names right
  behind it.
* `InOrder` says that a list has what is found at places, in the order of the places and each once.
  With it `ExprNode.mentions_inOrder` says what the mentions of a node are.
-/

namespace Preflight

/-! ### Lists in the order of places -/

section InOrder

variable {α β γ : Type}

/-- A list has what is found at places, in the order of the places and each once. -/
def InOrder (P : List Nat → α → Prop) (as : List α) : Prop :=
  ∃ found : List (List Nat × α), (found.map Prod.fst).Pairwise (· < ·) ∧ found.map Prod.snd = as ∧
    ∀ p a, (p, a) ∈ found ↔ P p a

namespace InOrder

theorem congr {P Q : List Nat → α → Prop} (h : ∀ p a, P p a ↔ Q p a) {as : List α}
    (hP : InOrder P as) : InOrder Q as := by
  obtain ⟨found, hsorted, hvalues, hmem⟩ := hP
  exact ⟨found, hsorted, hvalues, fun p a => (hmem p a).trans (h p a)⟩

/-- What is found at the children, one child after another, the first of them at position `k`. -/
theorem children {Q : γ → List Nat → α → Prop} {f : γ → List α} {cs : List γ}
    (h : ∀ c ∈ cs, InOrder (Q c) (f c)) (k : Nat) :
    InOrder (fun p a => ∃ i c q, cs[i]? = some c ∧ p = (k + i) :: q ∧ Q c q a) (cs.flatMap f) := by
  induction cs generalizing k with
  | nil => exact ⟨[], by simp, by simp, by simp⟩
  | cons c cs ih =>
    obtain ⟨⟨found, hsorted, hvalues, hmem⟩, hcs⟩ := List.forall_mem_cons.1 h
    obtain ⟨rest, hsorted', hvalues', hmem'⟩ := ih hcs (k + 1)
    refine ⟨found.map (fun e => (k :: e.1, e.2)) ++ rest, ?_, ?_, fun p a => ?_⟩
    · rw [List.map_append, List.pairwise_append]
      refine ⟨?_, hsorted', ?_⟩
      · rw [List.pairwise_map] at hsorted
        rw [List.map_map, List.pairwise_map]
        exact hsorted.imp fun hlt => List.cons_lt_cons_iff.2 (.inr ⟨rfl, hlt⟩)
      · -- The places of the other children start with a later position.
        intro p hp q hq
        obtain ⟨⟨_, _⟩, he, rfl⟩ := List.mem_map.1 hp
        obtain ⟨⟨_, _⟩, -, heq⟩ := List.mem_map.1 he
        cases heq
        obtain ⟨⟨q, a⟩, he', rfl⟩ := List.mem_map.1 hq
        obtain ⟨i, c', q', -, rfl, -⟩ := (hmem' q a).1 he'
        exact List.cons_lt_cons_iff.2 (.inl (by omega))
    · rw [List.map_append, List.map_map, List.flatMap_cons, hvalues', ← hvalues]
      rfl
    · rw [List.mem_append, hmem', List.mem_map]
      constructor
      · rintro (⟨⟨q, b⟩, he, heq⟩ | ⟨i, c', q, hc', rfl, hq⟩)
        · cases heq
          exact ⟨0, c, q, rfl, rfl, (hmem q b).1 he⟩
        · exact ⟨i + 1, c', q, hc', by rw [Nat.add_assoc, Nat.add_comm 1], hq⟩
      · rintro ⟨i, c', q, hc', rfl, hq⟩
        cases i with
        | zero =>
          cases hc'
          exact .inl ⟨(q, a), (hmem q a).2 hq, rfl⟩
        | succ i => exact .inr ⟨i, c', q, hc', by rw [Nat.add_assoc, Nat.add_comm 1], hq⟩

/-- At most one is found at the place itself, ahead of what is found further down. -/
theorem atRoot {own : List α} (hown : own.length ≤ 1) {P : List Nat → α → Prop} {as : List α}
    (h : InOrder P as) (hne : ∀ a, ¬P [] a) :
    InOrder (fun p a => (p = [] ∧ a ∈ own) ∨ P p a) (own ++ as) := by
  obtain ⟨found, hsorted, hvalues, hmem⟩ := h
  refine ⟨own.map (fun a => ([], a)) ++ found, ?_, ?_, fun p a => ?_⟩
  · rw [List.map_append, List.pairwise_append]
    refine ⟨?_, hsorted, fun p hp q hq => ?_⟩
    · match own, hown with
      | [], _ => exact .nil
      | [_], _ => exact List.pairwise_singleton _ _
    · obtain ⟨⟨_, _⟩, he, rfl⟩ := List.mem_map.1 hp
      obtain ⟨_, -, heq⟩ := List.mem_map.1 he
      cases heq
      obtain ⟨⟨q, a⟩, he', rfl⟩ := List.mem_map.1 hq
      cases q with
      | nil => exact absurd ((hmem [] a).1 he') (hne a)
      | cons i q => exact List.nil_lt_cons i q
  · rw [List.map_append, List.map_map, hvalues]
    congr 1
    exact List.map_id own
  · simp [hmem, and_comm, eq_comm]

theorem filterMap {P : List Nat → α → Prop} {as : List α} (h : InOrder P as) (f : α → Option β) :
    InOrder (fun p b => ∃ a, P p a ∧ f a = some b) (as.filterMap f) := by
  obtain ⟨found, hsorted, hvalues, hmem⟩ := h
  refine ⟨found.filterMap fun e => (f e.2).map (Prod.mk e.1), ?_, ?_, fun p b => ?_⟩
  · rw [List.pairwise_map] at hsorted
    rw [List.pairwise_map, List.pairwise_filterMap]
    refine hsorted.imp fun {e e'} hlt b hb b' hb' => ?_
    obtain ⟨_, -, rfl⟩ := Option.map_eq_some_iff.1 hb
    obtain ⟨_, -, rfl⟩ := Option.map_eq_some_iff.1 hb'
    exact hlt
  · rw [List.map_filterMap, ← hvalues, List.filterMap_map]
    congr 1
    funext e
    cases hb : f e.2 <;> simp [hb]
  · simp [hmem]

end InOrder

end InOrder

/-! ### The tree of an expression -/

/-- The nodes of the tree of an expression. -/
inductive ExprNode where
  | expr (e : Expr)
  | part (p : Part)

/-- Expressions below a node that binds names for them. -/
def exprsUnder (names : List String) (es : List Expr) : List (List String × ExprNode) :=
  es.map fun e => (names, .expr e)

/-- Parts of a template below a node that binds names for them. -/
def partsUnder (names : List String) (ps : List Part) : List (List String × ExprNode) :=
  ps.map fun p => (names, .part p)

/-- The nodes right below an expression. A variable at the root of a traversal is no node of its own. -/
def Expr.childNodes : Expr → List (List String × ExprNode)
  | .null | .bool _ | .number _ | .string _ | .variable _ => []
  | .array items => exprsUnder [] items
  | .object items => exprsUnder [] (items.flatMap fun (k, e) => k.exprs ++ [e])
  | .template _ parts? => partsUnder [] (parts?.getD [])
  | .traversal (.variable _) path => exprsUnder [] (path.flatMap Access.exprs)
  | .traversal root path => exprsUnder [] (root :: path.flatMap Access.exprs)
  | .call _ args _ => exprsUnder [] args
  | .paren inner => exprsUnder [] [inner]
  | .conditional cond yes no => exprsUnder [] [cond, yes, no]
  | .unary _ operand => exprsUnder [] [operand]
  | .binary _ lhs rhs => exprsUnder [] [lhs, rhs]
  | .forList key? value collection body cond? =>
    exprsUnder [] [collection] ++ exprsUnder (boundNames key? value) (body :: cond?.toList)
  | .forObject key? value collection key body _ cond? =>
    exprsUnder [] [collection] ++ exprsUnder (boundNames key? value) (key :: body :: cond?.toList)

/-- The nodes right below a part of a template. -/
def Part.childNodes : Part → List (List String × ExprNode)
  | .literal _ => []
  | .interpolation e => exprsUnder [] [e]
  | .branch cond yes no => exprsUnder [] [cond] ++ partsUnder [] (yes ++ no.getD [])
  | .loop key? value collection body =>
    exprsUnder [] [collection] ++ partsUnder (boundNames key? value) body

/-- The reference that an expression is: a variable with all the attribute names right behind it, and the
text of the whole expression. -/
inductive Expr.Refers : Expr → Reference → Prop
  | alone (x : String) : Refers (.variable x) ⟨x, [], (Expr.variable x).text⟩
  | followed (x : String) (names : List String) {rest : List Access}
    (hrest : ∀ name path, rest ≠ .field name :: path) :
    Refers (.traversal (.variable x) (names.map .field ++ rest))
      ⟨x, names, (Expr.traversal (.variable x) (names.map .field ++ rest)).text⟩

/-- The attribute names at the start of a path and what is behind them. -/
theorem exists_staticNames (path : List Access) : ∃ rest, path = (staticNames path).map .field ++ rest ∧
    ∀ name path', rest ≠ .field name :: path' := by
  induction path with
  | nil => exact ⟨[], rfl, by simp⟩
  | cons a path ih =>
    cases a with
    | field name =>
      obtain ⟨rest, hpath, hrest⟩ := ih
      exact ⟨rest, congrArg (.field name :: ·) hpath, hrest⟩
    | _ => exact ⟨_, rfl, by simp⟩

theorem staticNames_append {rest : List Access} (h : ∀ name path, rest ≠ .field name :: path)
    (names : List String) : staticNames (names.map .field ++ rest) = names := by
  induction names with
  | nil =>
    cases rest with
    | nil => rfl
    | cons a rest =>
      cases a with
      | field name => exact absurd rfl (h name rest)
      | _ => rfl
  | cons name names ih => exact congrArg (name :: ·) ih

theorem Expr.Refers.of_staticNames (x : String) (path : List Access) :
    Refers (.traversal (.variable x) path)
      ⟨x, staticNames path, (Expr.traversal (.variable x) path).text⟩ := by
  obtain ⟨rest, hpath, hrest⟩ := exists_staticNames path
  have h := Refers.followed x (staticNames path) hrest
  rwa [← hpath] at h

namespace ExprNode

/-- The nodes right below a node from left to right, each with the names that are bound for it. -/
def children : ExprNode → List (List String × ExprNode)
  | .expr e => e.childNodes
  | .part p => p.childNodes

/-- A node is at a place of another one, and names are bound on the way to it, the innermost first. -/
inductive At : ExprNode → List Nat → List String → ExprNode → Prop
  | here (n : ExprNode) : At n [] [] n
  | under {n m k : ExprNode} {names bound : List String} {i : Nat} {p : List Nat}
    (hc : n.children[i]? = some (names, m)) (h : At m p bound k) : At n (i :: p) (bound ++ names) k

/-- What is mentioned in a node inside a binding of names. -/
def mentions (bound : List String) : ExprNode → List Mention
  | .expr e => e.mentions bound
  | .part p => p.mentions bound

/-- What a node itself is a mention of. -/
def own (bound : List String) : ExprNode → List Mention
  | .expr (.variable x) => referTo bound x [] x
  | .expr (.traversal (.variable x) path) =>
    referTo bound x path (Expr.traversal (.variable x) path).text
  | .expr (.call function _ _) => [.call function]
  | _ => []

end ExprNode

/-! ### The nodes below are smaller -/

theorem sizeOf_exprsUnder_lt {names : List String} {es : List Expr} {k : Nat}
    (h : ∀ e ∈ es, sizeOf e < k) : ∀ c ∈ exprsUnder names es, sizeOf c.2 < 1 + k := by
  intro c hc
  obtain ⟨e, he, rfl⟩ := List.mem_map.1 hc
  have := h e he
  simp only [ExprNode.expr.sizeOf_spec]
  omega

theorem sizeOf_partsUnder_lt {names : List String} {ps : List Part} {k : Nat}
    (h : ∀ p ∈ ps, sizeOf p < k) : ∀ c ∈ partsUnder names ps, sizeOf c.2 < 1 + k := by
  intro c hc
  obtain ⟨p, hp, rfl⟩ := List.mem_map.1 hc
  have := h p hp
  simp only [ExprNode.part.sizeOf_spec]
  omega

theorem sizeOf_keys_lt {items : List (Key × Expr)} :
    ∀ e ∈ items.flatMap (fun (k, e) => k.exprs ++ [e]), sizeOf e < sizeOf items := by
  intro e he
  obtain ⟨⟨k, v⟩, hitem, he⟩ := List.mem_flatMap.1 he
  have hlt : sizeOf (k, v) < sizeOf items := List.sizeOf_lt_of_mem hitem
  rw [Prod.mk.sizeOf_spec] at hlt
  rcases List.mem_append.1 he with he | he
  · cases k with
    | name n => cases he
    | expr e' =>
      obtain rfl := List.mem_singleton.1 he
      rw [Key.expr.sizeOf_spec] at hlt
      omega
  · obtain rfl := List.mem_singleton.1 he
    omega

theorem sizeOf_operands_lt {path : List Access} :
    ∀ e ∈ path.flatMap Access.exprs, sizeOf e < sizeOf path := by
  intro e he
  obtain ⟨a, ha, he⟩ := List.mem_flatMap.1 he
  have hlt : sizeOf a < sizeOf path := List.sizeOf_lt_of_mem ha
  cases a with
  | index e' =>
    obtain rfl := List.mem_singleton.1 he
    rw [Access.index.sizeOf_spec] at hlt
    omega
  | _ => cases he

theorem sizeOf_cond_lt {cond? : Option Expr} : ∀ e ∈ cond?.toList, sizeOf e < sizeOf cond? := by
  intro e he
  obtain rfl := Option.mem_toList.1 he
  simp

theorem sizeOf_items_lt {α : Type} [SizeOf α] {as : List α} : ∀ a ∈ as, sizeOf a < sizeOf as :=
  fun _ => List.sizeOf_lt_of_mem

theorem sizeOf_only_lt {e : Expr} {k : Nat} (h : sizeOf e < k) : ∀ e' ∈ [e], sizeOf e' < k := by
  rintro e' he'
  obtain rfl := List.mem_singleton.1 he'
  exact h

theorem sizeOf_getD_lt {ps? : Option (List Part)} : ∀ p ∈ ps?.getD [], sizeOf p < sizeOf ps? := by
  intro p hp
  cases ps? with
  | none => cases hp
  | some ps =>
    have : sizeOf p < sizeOf ps := sizeOf_items_lt p hp
    rw [Option.some.sizeOf_spec]
    omega

theorem Expr.sizeOf_childNodes_lt (e : Expr) : ∀ c ∈ e.childNodes, sizeOf c.2 < 1 + sizeOf e := by
  cases e with
  | array items =>
    refine sizeOf_exprsUnder_lt fun e he => ?_
    have := sizeOf_items_lt e he
    rw [Expr.array.sizeOf_spec]
    omega
  | call function args expandFinal =>
    refine sizeOf_exprsUnder_lt fun e he => ?_
    have := sizeOf_items_lt e he
    rw [Expr.call.sizeOf_spec]
    omega
  | object items =>
    refine sizeOf_exprsUnder_lt fun e he => ?_
    have := sizeOf_keys_lt e he
    rw [Expr.object.sizeOf_spec]
    omega
  | template form parts? =>
    refine sizeOf_partsUnder_lt fun p hp => ?_
    have := sizeOf_getD_lt p hp
    rw [Expr.template.sizeOf_spec]
    omega
  | traversal root path =>
    have hpath : ∀ e ∈ path.flatMap Access.exprs, sizeOf e < sizeOf (Expr.traversal root path) := by
      intro e he
      have := sizeOf_operands_lt e he
      rw [Expr.traversal.sizeOf_spec]
      omega
    by_cases hv : ∃ name, root = .variable name
    · obtain ⟨name, rfl⟩ := hv
      exact sizeOf_exprsUnder_lt hpath
    · rw [Expr.childNodes]
      · refine sizeOf_exprsUnder_lt (List.forall_mem_cons.2 ⟨?_, hpath⟩)
        rw [Expr.traversal.sizeOf_spec]
        omega
      · exact fun name hname => hv ⟨name, hname⟩
  | forList key? value collection body cond? =>
    rw [Expr.childNodes, Expr.forList.sizeOf_spec]
    refine List.forall_mem_append.2 ⟨sizeOf_exprsUnder_lt (sizeOf_only_lt (by omega)),
      sizeOf_exprsUnder_lt ?_⟩
    refine List.forall_mem_cons.2 ⟨by omega, fun e he => ?_⟩
    have := sizeOf_cond_lt e he
    omega
  | forObject key? value collection key body grouping cond? =>
    rw [Expr.childNodes, Expr.forObject.sizeOf_spec]
    refine List.forall_mem_append.2 ⟨sizeOf_exprsUnder_lt (sizeOf_only_lt (by omega)),
      sizeOf_exprsUnder_lt ?_⟩
    refine List.forall_mem_cons.2 ⟨by omega, List.forall_mem_cons.2 ⟨by omega, fun e he => ?_⟩⟩
    have := sizeOf_cond_lt e he
    omega
  | paren inner =>
    rw [Expr.paren.sizeOf_spec]
    exact sizeOf_exprsUnder_lt (sizeOf_only_lt (by omega))
  | conditional cond yes no =>
    rw [Expr.conditional.sizeOf_spec]
    exact sizeOf_exprsUnder_lt (List.forall_mem_cons.2
      ⟨by omega, List.forall_mem_cons.2 ⟨by omega, sizeOf_only_lt (by omega)⟩⟩)
  | unary op operand =>
    rw [Expr.unary.sizeOf_spec]
    exact sizeOf_exprsUnder_lt (sizeOf_only_lt (by omega))
  | binary op lhs rhs =>
    rw [Expr.binary.sizeOf_spec]
    exact sizeOf_exprsUnder_lt (List.forall_mem_cons.2 ⟨by omega, sizeOf_only_lt (by omega)⟩)
  | _ => simp [Expr.childNodes]

theorem Part.sizeOf_childNodes_lt (p : Part) : ∀ c ∈ p.childNodes, sizeOf c.2 < 1 + sizeOf p := by
  cases p with
  | literal text => simp [Part.childNodes]
  | interpolation e =>
    rw [Part.interpolation.sizeOf_spec]
    exact sizeOf_exprsUnder_lt (sizeOf_only_lt (by omega))
  | branch cond yes no =>
    rw [Part.childNodes, Part.branch.sizeOf_spec]
    refine List.forall_mem_append.2 ⟨sizeOf_exprsUnder_lt (sizeOf_only_lt (by omega)),
      sizeOf_partsUnder_lt ?_⟩
    refine List.forall_mem_append.2 ⟨fun p hp => ?_, fun p hp => ?_⟩
    · have := sizeOf_items_lt p hp
      omega
    · have := sizeOf_getD_lt p hp
      omega
  | loop key? value collection body =>
    rw [Part.childNodes, Part.loop.sizeOf_spec]
    refine List.forall_mem_append.2 ⟨sizeOf_exprsUnder_lt (sizeOf_only_lt (by omega)),
      sizeOf_partsUnder_lt fun p hp => ?_⟩
    have := sizeOf_items_lt p hp
    omega

/-! ### The mentions of a node -/

theorem partMentions_eq_flatMap (bound : List String) (ps : List Part) :
    partMentions bound ps = ps.flatMap (Part.mentions bound) := by
  induction ps with
  | nil => rfl
  | cons p ps ih => rw [partMentions, ih, List.flatMap_cons]

theorem optionalMentions_eq (bound : List String) (ps? : Option (List Part)) :
    optionalMentions bound ps? = partMentions bound (ps?.getD []) := by
  cases ps? <;> simp [optionalMentions, partMentions]

theorem condMentions_eq_flatMap (bound : List String) (cond? : Option Expr) :
    condMentions bound cond? = cond?.toList.flatMap (Expr.mentions bound) := by
  cases cond? <;> simp [condMentions]

theorem Key.mentions_eq_flatMap (bound : List String) (k : Key) :
    k.mentions bound = k.exprs.flatMap (Expr.mentions bound) := by
  cases k <;> simp [Key.mentions, Key.exprs]

theorem Access.mentions_eq_flatMap (bound : List String) (a : Access) :
    a.mentions bound = a.exprs.flatMap (Expr.mentions bound) := by
  cases a <;> simp [Access.mentions, Access.exprs]

theorem pathMentions_eq_exprs (bound : List String) (path : List Access) :
    pathMentions bound path = (path.flatMap Access.exprs).flatMap (Expr.mentions bound) := by
  rw [pathMentions_eq_flatMap, List.flatMap_assoc]
  congr 1
  funext a
  exact a.mentions_eq_flatMap bound

namespace ExprNode

@[simp] theorem mentions_expr (e : Expr) (bound : List String) :
    (ExprNode.expr e).mentions bound = e.mentions bound :=
  rfl

@[simp] theorem mentions_part (p : Part) (bound : List String) :
    (ExprNode.part p).mentions bound = p.mentions bound :=
  rfl

/-- What is mentioned under a node, child after child. -/
def mentionsUnder (bound : List String) (cs : List (List String × ExprNode)) : List Mention :=
  cs.flatMap fun c => c.2.mentions (c.1 ++ bound)

@[simp] theorem mentionsUnder_append (bound : List String) (cs ds : List (List String × ExprNode)) :
    mentionsUnder bound (cs ++ ds) = mentionsUnder bound cs ++ mentionsUnder bound ds :=
  List.flatMap_append

@[simp] theorem mentionsUnder_exprsUnder (bound names : List String) (es : List Expr) :
    mentionsUnder bound (exprsUnder names es) = es.flatMap (Expr.mentions (names ++ bound)) := by
  rw [mentionsUnder, exprsUnder, List.flatMap_map]
  rfl

@[simp] theorem mentionsUnder_partsUnder (bound names : List String) (ps : List Part) :
    mentionsUnder bound (partsUnder names ps) = ps.flatMap (Part.mentions (names ++ bound)) := by
  rw [mentionsUnder, partsUnder, List.flatMap_map]
  rfl

@[simp] theorem mentionsUnder_nil (bound : List String) : mentionsUnder bound [] = [] :=
  rfl

theorem own_of_computed {root : Expr} (h : ∀ name, root ≠ .variable name) (path : List Access)
    (bound : List String) : (ExprNode.expr (.traversal root path)).own bound = [] := by
  unfold own
  split
  · rename_i heq
    cases heq
  · rename_i heq
    cases heq
    exact absurd rfl (h _)
  · rename_i heq
    cases heq
  · rfl

/-- What a node mentions is what it is a mention of itself and what the nodes below it mention. -/
theorem mentions_eq (n : ExprNode) (bound : List String) :
    n.mentions bound = n.own bound ++ mentionsUnder bound n.children := by
  cases n with
  | expr e =>
    cases e with
    | traversal root path =>
      by_cases hv : ∃ name, root = .variable name
      · obtain ⟨name, rfl⟩ := hv
        simp [own, children, Expr.childNodes, Expr.mentions, pathMentions_eq_exprs]
      · have hroot : ∀ name, root ≠ .variable name := fun name hn => hv ⟨name, hn⟩
        simp [own_of_computed hroot, children, Expr.childNodes, Expr.mentions_traversal hroot,
          pathMentions_eq_exprs]
    | _ =>
      simp [own, children, Expr.childNodes, Expr.mentions, itemMentions_eq_flatMap,
        entryMentions_eq_flatMap, Key.mentions_eq_flatMap, optionalMentions_eq,
        partMentions_eq_flatMap, condMentions_eq_flatMap, List.flatMap_assoc]
  | part p =>
    cases p <;>
      simp [own, children, Part.childNodes, Part.mentions, optionalMentions_eq,
        partMentions_eq_flatMap]

/-- The nodes right below a node are smaller. -/
theorem sizeOf_children_lt {n : ExprNode} {c : List String × ExprNode} (hc : c ∈ n.children) :
    sizeOf c.2 < sizeOf n := by
  cases n with
  | expr e =>
    rw [expr.sizeOf_spec]
    exact e.sizeOf_childNodes_lt c hc
  | part p =>
    rw [part.sizeOf_spec]
    exact p.sizeOf_childNodes_lt c hc

/-- What a node is a mention of where names are bound. -/
inductive Is (bound : List String) : ExprNode → Mention → Prop
  | reference {e : Expr} {r : Reference} (hr : e.Refers r) (hb : r.root ∉ bound) :
    Is bound (.expr e) (.reference r)
  | call (function : String) (args : List Expr) (expandFinal : Bool) :
    Is bound (.expr (.call function args expandFinal)) (.call function)

theorem length_own_le (n : ExprNode) (bound : List String) : (n.own bound).length ≤ 1 := by
  unfold own referTo
  split
  · split <;> simp
  · split <;> simp
  · simp
  · simp

theorem mem_referTo {bound : List String} {x : String} {path : List Access} {text : String}
    {m : Mention} : m ∈ referTo bound x path text ↔
      x ∉ bound ∧ m = .reference ⟨x, staticNames path, text⟩ := by
  by_cases hb : x ∈ bound <;> simp [referTo, hb]

theorem mem_own {n : ExprNode} {bound : List String} {m : Mention} : m ∈ n.own bound ↔ n.Is bound m := by
  constructor
  · intro hm
    unfold own at hm
    split at hm
    · obtain ⟨hb, rfl⟩ := mem_referTo.1 hm
      exact .reference (.alone _) hb
    · obtain ⟨hb, rfl⟩ := mem_referTo.1 hm
      exact .reference (.of_staticNames _ _) hb
    · obtain rfl := List.mem_singleton.1 hm
      exact .call _ _ _
    · cases hm
  · rintro (⟨hr, hb⟩ | _)
    · cases hr with
      | alone x => exact mem_referTo.2 ⟨hb, rfl⟩
      | followed x names hrest =>
        refine mem_referTo.2 ⟨hb, ?_⟩
        rw [staticNames_append hrest]
    · exact List.mem_singleton.2 rfl

/-- The mentions of a node are what stands at its places. -/
theorem mentions_inOrder (n : ExprNode) (bound : List String) :
    InOrder (fun p m => ∃ names k, n.At p names k ∧ k.Is (names ++ bound) m) (n.mentions bound) := by
  have ih : ∀ c ∈ n.children, InOrder
      (fun p m => ∃ names k, c.2.At p names k ∧ k.Is (names ++ (c.1 ++ bound)) m)
      (c.2.mentions (c.1 ++ bound)) := fun c hc => mentions_inOrder c.2 (c.1 ++ bound)
  rw [mentions_eq]
  refine ((InOrder.children ih 0).atRoot (n.length_own_le bound) ?_).congr fun p m => ?_
  · rintro a ⟨i, c, q, -, h, -⟩
    cases h
  · constructor
    · rintro (⟨rfl, hm⟩ | ⟨i, ⟨names', m'⟩, q, hc, rfl, names, k, hk, hm⟩)
      · exact ⟨[], n, .here n, mem_own.1 hm⟩
      · refine ⟨names ++ names', k, ?_, by rwa [List.append_assoc]⟩
        rw [Nat.zero_add]
        exact .under hc hk
    · rintro ⟨names, k, hk, hm⟩
      cases hk with
      | here => exact .inl ⟨rfl, mem_own.2 hm⟩
      | under hc hk =>
        exact .inr ⟨_, _, _, hc, by rw [Nat.zero_add], _, _, hk, by rwa [← List.append_assoc]⟩
termination_by sizeOf n
decreasing_by exact sizeOf_children_lt hc

end ExprNode
end Preflight

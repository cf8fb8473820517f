import Preflight.Proofs.Paths
import Preflight.TagPolicy

/-!
# What the policy for tags keeps out

An expression that the policy accepts calls no functions, and it cannot tell two scopes apart that
differ in data sources other than parameters, or in attributes of parameters other than their
values: `TagPolicy.noninterference`.

* `Expr.Within` says that an expression occurs in another one, at any depth. What it mentions is
  mentioned by the whole (`Expr.Within.exists_mentions_subset`).
* `TagPolicy.Alike` relates the scopes. A reference that the policy does not refuse finds the same
  in both (`TagPolicy.Alike.lookup`).
-/

namespace Preflight

/-! ### Expressions in expressions -/

/-- The expressions in an object key. -/
def Key.exprs : Key → List Expr
  | .name _ => []
  | .expr e => [e]

/-- The expressions in an access. -/
def Access.exprs : Access → List Expr
  | .index e => [e]
  | _ => []

mutual
/-- The outermost expressions in a part of a template. -/
def Part.exprs : Part → List Expr
  | .literal _ => []
  | .interpolation e => [e]
  | .branch cond yes no => cond :: (partExprs yes ++ optionalExprs no)
  | .loop _ _ collection body => collection :: partExprs body

/-- The outermost expressions in the parts of a template. -/
def partExprs : List Part → List Expr
  | [] => []
  | p :: ps => p.exprs ++ partExprs ps

/-- The outermost expressions in parts that may be missing. -/
def optionalExprs : Option (List Part) → List Expr
  | none => []
  | some ps => partExprs ps
end

/-- The expressions right below an expression. -/
def Expr.children : Expr → List Expr
  | .null | .bool _ | .number _ | .string _ | .variable _ => []
  | .array items => items
  | .object items => items.flatMap fun (k, e) => k.exprs ++ [e]
  | .template _ parts? => optionalExprs parts?
  | .traversal root path => root :: path.flatMap Access.exprs
  | .call _ args _ => args
  | .paren inner => [inner]
  | .conditional cond yes no => [cond, yes, no]
  | .unary _ operand => [operand]
  | .binary _ lhs rhs => [lhs, rhs]
  | .forList _ _ collection body cond? => [collection, body] ++ cond?.toList
  | .forObject _ _ collection key body _ cond? => [collection, key, body] ++ cond?.toList

/-- An expression occurs in another one, or is the same. -/
inductive Expr.Within : Expr → Expr → Prop
  | refl (e : Expr) : Within e e
  | child {d c e : Expr} : c ∈ e.children → Within d c → Within d e

theorem itemMentions_eq_flatMap (bound : List String) (es : List Expr) :
    itemMentions bound es = es.flatMap (Expr.mentions bound) := by
  induction es with
  | nil => rfl
  | cons e es ih => rw [itemMentions, ih, List.flatMap_cons]

theorem entryMentions_eq_flatMap (bound : List String) (es : List (Key × Expr)) :
    entryMentions bound es = es.flatMap fun (k, e) => k.mentions bound ++ e.mentions bound := by
  induction es with
  | nil => rfl
  | cons e es ih => rw [entryMentions, ih, List.flatMap_cons]

theorem pathMentions_eq_flatMap (bound : List String) (path : List Access) :
    pathMentions bound path = path.flatMap (Access.mentions bound) := by
  induction path with
  | nil => rfl
  | cons a path ih => rw [pathMentions, ih, List.flatMap_cons]

/-- Under some binding all calls of an expression are among some mentions. -/
def Expr.CallsIn (c : Expr) (ms : List Mention) : Prop :=
  ∃ bound, ∀ f, .call f ∈ c.mentions bound → .call f ∈ ms

theorem Expr.CallsIn.refl (c : Expr) (bound : List String) : c.CallsIn (c.mentions bound) :=
  ⟨bound, fun _ hf => hf⟩

theorem Expr.CallsIn.mono {c : Expr} {ms ms' : List Mention} (h : c.CallsIn ms)
    (hs : ∀ m ∈ ms, m ∈ ms') : c.CallsIn ms' := by
  obtain ⟨bound, hb⟩ := h
  exact ⟨bound, fun f hf => hs _ (hb f hf)⟩

theorem Key.callsIn {k : Key} {c : Expr} (h : c ∈ k.exprs) (bound : List String) :
    c.CallsIn (k.mentions bound) := by
  cases k with
  | name n => cases h
  | expr e =>
    obtain rfl := List.mem_singleton.1 h
    rw [Key.mentions]
    exact .refl c bound

theorem Access.callsIn {a : Access} {c : Expr} (h : c ∈ a.exprs) (bound : List String) :
    c.CallsIn (a.mentions bound) := by
  cases a with
  | index e =>
    obtain rfl := List.mem_singleton.1 h
    rw [Access.mentions]
    exact .refl c bound
  | _ => cases h

mutual
theorem Part.callsIn {c : Expr} : (p : Part) → c ∈ p.exprs → (bound : List String) →
    c.CallsIn (p.mentions bound)
  | .literal _, h, _ => by
    rw [Part.exprs] at h
    cases h
  | .interpolation e, h, bound => by
    rw [Part.exprs, List.mem_singleton] at h
    rw [Part.mentions, h]
    exact .refl e bound
  | .branch cond yes no, h, bound => by
    rw [Part.exprs, List.mem_cons, List.mem_append] at h
    rw [Part.mentions]
    rcases h with rfl | h | h
    · exact (Expr.CallsIn.refl c bound).mono (by simp +contextual)
    · exact (partMentions_callsIn yes h bound).mono (by simp +contextual)
    · exact (optionalMentions_callsIn no h bound).mono (by simp +contextual)
  | .loop key? value collection body, h, bound => by
    rw [Part.exprs, List.mem_cons] at h
    rw [Part.mentions]
    rcases h with rfl | h
    · exact (Expr.CallsIn.refl c bound).mono (by simp +contextual)
    · exact (partMentions_callsIn body h (boundNames key? value ++ bound)).mono (by simp +contextual)

theorem partMentions_callsIn {c : Expr} : (ps : List Part) → c ∈ partExprs ps →
    (bound : List String) → c.CallsIn (partMentions bound ps)
  | [], h, _ => by
    rw [partExprs] at h
    cases h
  | p :: ps, h, bound => by
    rw [partExprs, List.mem_append] at h
    rw [partMentions]
    rcases h with h | h
    · exact (Part.callsIn p h bound).mono (by simp +contextual)
    · exact (partMentions_callsIn ps h bound).mono (by simp +contextual)

theorem optionalMentions_callsIn {c : Expr} : (ps? : Option (List Part)) →
    c ∈ optionalExprs ps? → (bound : List String) → c.CallsIn (optionalMentions bound ps?)
  | none, h, _ => by
    rw [optionalExprs] at h
    cases h
  | some ps, h, bound => by
    rw [optionalExprs] at h
    rw [optionalMentions]
    exact partMentions_callsIn ps h bound
end

theorem condMentions_callsIn {c : Expr} {cond? : Option Expr} (h : c ∈ cond?.toList)
    (bound : List String) : c.CallsIn (condMentions bound cond?) := by
  obtain rfl := Option.mem_toList.1 h
  rw [condMentions]
  exact .refl c bound

theorem Expr.mem_mentions_traversal (root : Expr) {path : List Access} {a : Access} (ha : a ∈ path)
    {bound : List String} {m : Mention} (h : m ∈ a.mentions bound) :
    m ∈ (Expr.traversal root path).mentions bound := by
  have hm : m ∈ pathMentions bound path := by
    rw [pathMentions_eq_flatMap]
    exact List.mem_flatMap.2 ⟨a, ha, h⟩
  by_cases hv : ∃ name, root = .variable name
  · obtain ⟨name, rfl⟩ := hv
    rw [Expr.mentions]
    exact List.mem_append_right _ hm
  · rw [Expr.mentions_traversal fun name hn => hv ⟨name, hn⟩]
    exact List.mem_append_right _ hm

/-- The calls of a child are among the mentions of its parent. -/
theorem Expr.callsIn_of_child {c e : Expr} (h : c ∈ e.children) (bound : List String) :
    c.CallsIn (e.mentions bound) := by
  cases e with
  | null | bool | number | string | «variable» => cases h
  | array items =>
    rw [Expr.mentions, itemMentions_eq_flatMap]
    exact (CallsIn.refl c bound).mono fun m hm => List.mem_flatMap.2 ⟨c, h, hm⟩
  | object items =>
    obtain ⟨⟨k, e⟩, hm, hc⟩ := List.mem_flatMap.1 h
    rw [Expr.mentions, entryMentions_eq_flatMap]
    have hs : ∀ m ∈ k.mentions bound ++ e.mentions bound,
        m ∈ items.flatMap fun (k, e) => k.mentions bound ++ e.mentions bound :=
      fun m hm' => List.mem_flatMap.2 ⟨(k, e), hm, hm'⟩
    rcases List.mem_append.1 hc with hc | hc
    · exact (Key.callsIn hc bound).mono fun m hm => hs m (List.mem_append_left _ hm)
    · obtain rfl := List.mem_singleton.1 hc
      exact (CallsIn.refl c bound).mono fun m hm => hs m (List.mem_append_right _ hm)
  | template form parts? =>
    rw [Expr.mentions]
    exact optionalMentions_callsIn parts? h bound
  | traversal root path =>
    rcases List.mem_cons.1 h with rfl | h
    · by_cases hv : ∃ name, c = .variable name
      · obtain ⟨name, rfl⟩ := hv
        -- Among the mentions it shows as a reference only, and once bound not at all.
        refine ⟨[name], fun f hf => ?_⟩
        simp [Expr.mentions, referTo] at hf
      · rw [Expr.mentions_traversal fun name hn => hv ⟨name, hn⟩]
        exact (CallsIn.refl c bound).mono fun m hm => List.mem_append_left _ hm
    · obtain ⟨a, ha, hc⟩ := List.mem_flatMap.1 h
      refine (Access.callsIn hc bound).mono fun m hm => ?_
      exact mem_mentions_traversal _ ha hm
  | call function args expandFinal =>
    rw [Expr.mentions, itemMentions_eq_flatMap]
    exact (CallsIn.refl c bound).mono fun m hm =>
      List.mem_cons_of_mem _ (List.mem_flatMap.2 ⟨c, h, hm⟩)
  | paren inner =>
    obtain rfl := List.mem_singleton.1 h
    rw [Expr.mentions]
    exact .refl c bound
  | conditional cond yes no =>
    rw [Expr.mentions]
    simp only [children, List.mem_cons, List.not_mem_nil, or_false] at h
    refine (CallsIn.refl c bound).mono fun m hm => ?_
    rcases h with rfl | rfl | rfl <;> simp [hm]
  | unary op operand =>
    obtain rfl := List.mem_singleton.1 h
    rw [Expr.mentions]
    exact .refl c bound
  | binary op lhs rhs =>
    rw [Expr.mentions]
    simp only [children, List.mem_cons, List.not_mem_nil, or_false] at h
    refine (CallsIn.refl c bound).mono fun m hm => ?_
    rcases h with rfl | rfl <;> simp [hm]
  | forList key? value collection body cond? =>
    rw [Expr.mentions]
    simp only [children, List.mem_append, List.mem_cons, List.not_mem_nil, or_false] at h
    rcases h with (rfl | rfl) | h
    · exact (CallsIn.refl c bound).mono (by simp +contextual)
    · exact (CallsIn.refl c (boundNames key? value ++ bound)).mono (by simp +contextual)
    · exact (condMentions_callsIn h (boundNames key? value ++ bound)).mono (by simp +contextual)
  | forObject key? value collection key body grouping cond? =>
    rw [Expr.mentions]
    simp only [children, List.mem_append, List.mem_cons, List.not_mem_nil, or_false] at h
    rcases h with (rfl | rfl | rfl) | h
    · exact (CallsIn.refl c bound).mono (by simp +contextual)
    · exact (CallsIn.refl c (boundNames key? value ++ bound)).mono (by simp +contextual)
    · exact (CallsIn.refl c (boundNames key? value ++ bound)).mono (by simp +contextual)
    · exact (condMentions_callsIn h (boundNames key? value ++ bound)).mono (by simp +contextual)

/-- The calls of an expression that occurs in another one are among the mentions of the latter. -/
theorem Expr.Within.callsIn {d e : Expr} (h : d.Within e) (bound : List String) :
    d.CallsIn (e.mentions bound) := by
  induction h generalizing bound with
  | refl => exact .refl _ bound
  | child hc _ ih =>
    obtain ⟨inner, hi⟩ := callsIn_of_child hc bound
    obtain ⟨innermost, hd⟩ := ih inner
    exact ⟨innermost, fun f hf => hi f (hd f hf)⟩

/-- What is called anywhere in an expression is among its calls. -/
theorem Expr.Within.mem_calls {function : String} {args : List Expr} {expandFinal : Bool} {e : Expr}
    (h : (Expr.call function args expandFinal).Within e) : function ∈ e.calls := by
  obtain ⟨bound, hb⟩ := h.callsIn []
  refine List.mem_filterMap.2 ⟨.call function, hb function ?_, rfl⟩
  rw [Expr.mentions]
  exact List.mem_cons_self

/-! ### Scopes that the policy does not tell apart -/

namespace TagPolicy

/-- The same, but for attributes of a parameter other than its value. -/
def AlikeParameter (v w : Value) : Prop :=
  v = w ∨ ∃ es fs, v = .object es ∧ w = .object fs ∧
    Entries.get? es "value" = Entries.get? fs "value"

/-- Parameters of the same names, alike. -/
def AlikeParameters (v w : Value) : Prop :=
  v = w ∨ ∃ es fs, v = .object es ∧ w = .object fs ∧
    ∀ name, Option.Rel AlikeParameter (Entries.get? es name) (Entries.get? fs name)

/-- The same, but for data sources other than parameters. -/
def AlikeData (v w : Value) : Prop :=
  v = w ∨ ∃ es fs, v = .object es ∧ w = .object fs ∧
    Option.Rel AlikeParameters (Entries.get? es parameterType) (Entries.get? fs parameterType)

/-- Two scopes that differ at most in data sources other than parameters and in attributes of
parameters other than their values. -/
structure Alike (s s' : Scope) : Prop where
  roots : ∀ name, name ≠ "data" → s.get? name = s'.get? name
  data : Option.Rel AlikeData (s.get? "data") (s'.get? "data")
  computed : ∀ path, path ∈ s.computed ↔ path ∈ s'.computed

theorem AlikeParameter.sameAlong {v w : Value} (h : AlikeParameter v w) (names : List String) :
    v.SameAlong ("value" :: names) w := by
  rcases h with rfl | ⟨es, fs, rfl, rfl, h⟩
  · exact .refl _ v
  · exact Or.inr ⟨es, fs, rfl, rfl, rel_of_eq (.refl names) h⟩

theorem AlikeParameters.sameAlong {v w : Value} (h : AlikeParameters v w) (name : String)
    (names : List String) : v.SameAlong (name :: "value" :: names) w := by
  rcases h with rfl | ⟨es, fs, rfl, rfl, h⟩
  · exact .refl _ v
  · exact Or.inr ⟨es, fs, rfl, rfl, rel_imp (h name) fun _ _ hvw => hvw.sameAlong names⟩

theorem AlikeData.sameAlong {v w : Value} (h : AlikeData v w) (name : String)
    (names : List String) : v.SameAlong (parameterType :: name :: "value" :: names) w := by
  rcases h with rfl | ⟨es, fs, rfl, rfl, h⟩
  · exact .refl _ v
  · exact Or.inr ⟨es, fs, rfl, rfl, rel_imp h fun _ _ hvw => hvw.sameAlong name names⟩

/-- A permitted reference into the data sources goes to the value of a parameter. -/
theorem names_of_refusal?_eq_none {r : Reference} (h : refusal? r = none) (hr : r.root = "data") :
    ∃ name names, r.names = parameterType :: name :: "value" :: names := by
  rw [refusal?, if_neg (by simp [hr])] at h
  by_cases ht : r.names[0]? = some parameterType
  · by_cases ha : r.names[2]? = some "value"
    · match hn : r.names with
      | [] | [_] | [_, _] => simp [hn] at ha
      | type :: name :: third :: names =>
        rw [hn] at ht ha
        obtain rfl : type = parameterType := by simpa using ht
        obtain rfl : third = "value" := by simpa using ha
        exact ⟨name, names, rfl⟩
    · simp [ht, ha] at h
  · simp [ht] at h

/-- A permitted reference finds the same in both scopes. -/
theorem Alike.lookup {s s' : Scope} (h : Alike s s') (locals : Entries Value) {r : Reference}
    (hr : refusal? r = none) :
    (Context.mk s locals).lookup r = (Context.mk s' locals).lookup r := by
  apply Context.lookup_congr locals (Scope.isComputed_congr h.computed)
  by_cases hd : r.root = "data"
  · obtain ⟨name, names, hn⟩ := names_of_refusal?_eq_none hr hd
    rw [hd, hn]
    exact rel_imp h.data fun _ _ hvw => hvw.sameAlong name names
  · exact rel_of_eq (.refl r.names) (h.roots _ hd)

theorem refusal?_of_entry {e : Expr} (h : entry e = []) {r : Reference} (hr : r ∈ e.references) :
    refusal? r = none :=
  List.filterMap_eq_nil_iff.1 (List.append_eq_nil_iff.1 h).2 r hr

theorem calls_of_entry {e : Expr} (h : entry e = []) : e.calls = [] :=
  List.map_eq_nil_iff.1 (List.append_eq_nil_iff.1 h).1

/-- An expression that the policy accepts calls no function anywhere, and it has the same result in
scopes that differ in other data sources or in other attributes of parameters only. -/
theorem noninterference {e : Expr} (h : entry e = []) :
    (∀ function args expandFinal, ¬ (Expr.call function args expandFinal).Within e) ∧
      ∀ (locals : Entries Value) (s s' : Scope), Alike s s' →
        SameResult ((Context.mk s locals).evaluate e) ((Context.mk s' locals).evaluate e) := by
  refine ⟨fun function args expandFinal hw => ?_, fun locals s s' hs => ?_⟩
  · have hm := hw.mem_calls
    rw [calls_of_entry h] at hm
    cases hm
  · exact Context.evaluate_congr fun r hr => hs.lookup locals (refusal?_of_entry h hr)

/-- A tag made of a parameter's value does not depend on the description of the parameter, nor on
another data source. -/
theorem noninterference_parameter_value :
    let e : Expr := .traversal (.variable "data")
      [.field "coder_parameter", .field "region", .field "value"]
    let s : Scope := ⟨[("data", .object [("coder_parameter", .object [("region", .object
      [("description", .string "A"), ("value", .string "eu")])])])], []⟩
    let s' : Scope := ⟨[("data", .object [("http", .unknown), ("coder_parameter", .object
      [("region", .object [("value", .string "eu")])])])], []⟩
    entry e = [] ∧ ¬ (Expr.call "file" [] false).Within e ∧ Alike s s' ∧
      (Context.mk s []).evaluate e = .ok (.string "eu") ∧
      SameResult ((Context.mk s []).evaluate e) ((Context.mk s' []).evaluate e) := by
  intro e s s'
  have he : entry e = [] := by rfl
  have hs : Alike s s' := by
    refine ⟨fun name hn => ?_, ?_, fun path => Iff.rfl⟩
    · simp [s, s', Scope.get?, Entries.get?_cons, Ne.symm hn]
    · refine .some (Or.inr ⟨_, _, rfl, rfl, .some (Or.inr ⟨_, _, rfl, rfl, fun name => ?_⟩)⟩)
      by_cases hn : name = "region"
      · rw [hn]
        exact .some (Or.inr ⟨_, _, rfl, rfl, rfl⟩)
      · simp [Entries.get?_cons, Ne.symm hn]
  exact ⟨he, (noninterference he).1 _ _ _, hs, rfl, (noninterference he).2 [] s s' hs⟩

end TagPolicy
end Preflight

import Preflight.Proofs.Noninterference
import Preflight.Tag

/-!
# References written as paths

An expression such as `local.zone` is a root with attribute names behind it (`Expr.ofPath`). Where a
scope holds a value at the path, the expression has that value (`Context.evaluate_ofPath`), and a
side of a tag made of it is what the value shows as (`TagSite.value_ofPath`).
-/

namespace Preflight

/-- The expression that follows attribute names from a root. -/
def Expr.ofPath (root : String) (names : List String) : Expr :=
  .traversal (.variable root) (names.map Access.field)

/-- The reference in such an expression. -/
def Reference.ofPath (root : String) (names : List String) : Reference :=
  ⟨root, names, (Expr.ofPath root names).text⟩

/-! ### What they mention and how they are evaluated -/

theorem staticNames_map_field (names : List String) :
    staticNames (names.map Access.field) = names := by
  induction names with
  | nil => rfl
  | cons name names ih => rw [List.map_cons, staticNames, ih]

theorem pathMentions_map_field (bound names : List String) :
    pathMentions bound (names.map Access.field) = [] := by
  induction names with
  | nil => rfl
  | cons name names ih => simp [pathMentions, Access.mentions, ih]

theorem Expr.mentions_ofPath (root : String) (names : List String) :
    (Expr.ofPath root names).mentions [] = [.reference (.ofPath root names)] := by
  rw [ofPath, mentions, pathMentions_map_field, referTo, staticNames_map_field]
  rfl

theorem Expr.references_ofPath (root : String) (names : List String) :
    (Expr.ofPath root names).references = [.ofPath root names] := by
  rw [references, mentions_ofPath]
  rfl

theorem evalPath_map_field (env : Env) (node place : Expr) (names : List String) (v : Datum) :
    evalPath env node place (names.map Access.field) v = Datum.fields place names v := by
  induction names generalizing v with
  | nil => rfl
  | cons name names ih =>
    simp only [List.map_cons, evalPath, Datum.fields, ih]

/-- The value of such an expression is what its reference gives. -/
theorem Expr.eval_ofPath (env : Env) (root : String) (names : List String) :
    (Expr.ofPath root names).eval env =
      env.follow (.ofPath root names) (.ofPath root names) (.ofPath root names) := by
  rw [eval, ofPath, evalIn, evalIn_variable]
  simp only [evalPath_map_field]
  rfl

/-- What the policy permits of such an expression is a matter of its one reference. -/
theorem TagPolicy.entry_ofPath {root : String} {names : List String}
    (h : refusal? (.ofPath root names) = none) : entry (.ofPath root names) = [] := by
  rw [entry, Expr.references_ofPath, Expr.calls, Expr.mentions_ofPath]
  simp [Mention.call?, h]

/-! ### Values that stand at paths -/

mutual
/-- A wholly known value comes back from its data. -/
theorem Value.ofDatum_toDatum : (v : Value) → v.isWhollyKnown = true → ofDatum v.toDatum = v
  | .unknown, h => by cases h
  | .null, _ | .bool _, _ | .number _, _ | .string _, _ => rfl
  | .list items, h => by
    rw [isWhollyKnown] at h
    rw [toDatum, ofDatum, Value.ofData_toData items h]
  | .object entries, h => by
    rw [isWhollyKnown] at h
    rw [toDatum, ofDatum, Value.ofDatumEntries_toDatumEntries entries h]

theorem Value.ofData_toData : (vs : List Value) → allKnown vs = true → ofData (toData vs) = vs
  | [], _ => rfl
  | v :: vs, h => by
    rw [allKnown, Bool.and_eq_true] at h
    rw [toData, ofData, v.ofDatum_toDatum h.1, Value.ofData_toData vs h.2]

theorem Value.ofDatumEntries_toDatumEntries : (es : List (String × Value)) →
    allEntriesKnown es = true → ofDatumEntries (toDatumEntries es) = es
  | [], _ => rfl
  | (k, v) :: es, h => by
    rw [allEntriesKnown, Bool.and_eq_true] at h
    rw [toDatumEntries, ofDatumEntries, v.ofDatum_toDatum h.1,
      Value.ofDatumEntries_toDatumEntries es h.2]
end

namespace Context

variable {c : Context} {root : String} {names : List String} {v : Value}

theorem lookup_of_getPath? {r : Reference} (hl : c.locals.get? r.root = none)
    (h : c.scope.getPath? r.path = some v) : c.lookup r = .found v := by
  rw [Reference.path, Scope.getPath?] at h
  obtain ⟨u, hu, h⟩ := Option.bind_eq_some_iff.1 h
  simp only [lookup, root?, hl, hu]
  exact c.scope.follow_of_getPath? _ h

theorem getPath?_of_lookup {r : Reference} (hl : c.locals.get? r.root = none)
    (h : c.lookup r = .found v) : c.scope.getPath? r.path = some v := by
  simp only [lookup, root?, hl] at h
  cases hr : c.scope.get? r.root with
  | none => simp [hr] at h
  | some u =>
    simp only [hr] at h
    rw [Reference.path, Scope.getPath?, hr]
    exact c.scope.getPath?_of_follow h

/-- A reference to a path at which the scope holds a value has this value, if all of it is known. -/
theorem evaluate_ofPath (hl : c.locals.get? root = none)
    (h : c.scope.getPath? (root :: names) = some v) :
    c.evaluate (.ofPath root names) = .ok (if v.isWhollyKnown then v else .unknown) := by
  have hr : c.lookup (.ofPath root names) = .found v := lookup_of_getPath? hl h
  have hd : (Expr.ofPath root names).references.find? c.isUndeclared = none := by
    rw [Expr.references_ofPath, List.find?_eq_none]
    simp [isUndeclared, hr]
  cases hk : v.isWhollyKnown with
  | false =>
    refine evaluate_of_open hd ⟨.ofPath root names, ?_, ?_⟩
    · rw [Expr.references_ofPath]
      exact List.mem_singleton_self _
    · simp [hr, Lookup.isOpen, hk]
  | true =>
    have hc : ∀ r ∈ (Expr.ofPath root names).references, (c.lookup r).isOpen = false := by
      rw [Expr.references_ofPath]
      simp [hr, Lookup.isOpen, hk]
    have he : (Expr.ofPath root names).eval c.env = .ok v.toDatum := by
      rw [← toOption_eq_some, Expr.eval_ofPath, Env.toOption_follow, reach?_env, hr]
      rfl
    rw [evaluate_of_closed hd hc, he]
    simp only [v.ofDatum_toDatum hk, if_true]

end Context

/-! ### Sides of tags -/

/-- What is known of a side that has a value. -/
def TagValue.ofValue (v : Value) : TagValue :=
  if v.isWhollyKnown then
    match v.toText with
    | .ok s => .known s
    | .error _ => .errored
  else .unknown

namespace TagSite

variable (site : TagSite)

theorem value_of_evaluate {e : Expr} {v : Value} (hp : TagPolicy.entry e = [])
    (h : site.context.evaluate e = .ok v) : (site.value e).value = .ofValue v := by
  rw [value, hp]
  simp only [evaluate, h, TagValue.ofValue]
  split
  · cases v.toText <;> rfl
  · rfl

/-- A side made of a path shows the value at the path. -/
theorem value_ofPath {root : String} {names : List String} {v : Value}
    (hp : TagPolicy.refusal? (.ofPath root names) = none)
    (hl : site.context.locals.get? root = none)
    (h : site.context.scope.getPath? (root :: names) = some v) :
    (site.value (.ofPath root names)).value = .ofValue v := by
  rw [site.value_of_evaluate (TagPolicy.entry_ofPath hp) (Context.evaluate_ofPath hl h)]
  cases hk : v.isWhollyKnown with
  | true => rw [if_pos rfl]
  | false =>
    rw [if_neg (by simp), TagValue.ofValue, TagValue.ofValue, hk]
    rfl

/-- A side made of a path at which the scope holds nothing is not known. -/
theorem value_ofPath_ne_known {root : String} {names : List String}
    (hl : site.context.locals.get? root = none)
    (h : site.context.scope.getPath? (root :: names) = none) (text : String) :
    (site.value (.ofPath root names)).value ≠ .known text := by
  intro hknown
  rw [value] at hknown
  cases hp : TagPolicy.entry (.ofPath root names) with
  | cons reason reasons =>
    rw [hp] at hknown
    cases hknown
  | nil =>
    rw [hp] at hknown
    simp only [evaluate] at hknown
    cases he : site.context.evaluate (.ofPath root names) with
    | error err =>
      rw [he] at hknown
      cases hknown
    | ok v =>
      rw [he] at hknown
      rcases Context.evaluate_eq_ok he with rfl | ⟨-, d, hd, -⟩
      · cases hknown
      -- A value that is known comes from the scope.
      · have hreach := congrArg Except.toOption hd
        rw [Expr.eval_ofPath, Env.toOption_follow, Context.reach?_env] at hreach
        obtain ⟨w, hw, -⟩ := Option.map_eq_some_iff.1 hreach
        have hfound := Context.getPath?_of_lookup hl (Lookup.found?_eq_some.1 hw)
        exact absurd (h.symm.trans hfound) (by simp)

end TagSite

/-! ### The value of a parameter -/

/-- The expression for the value of a parameter. -/
def Parameter.reference (name : String) : Expr := .ofPath "data" [parameterType, name, "value"]

/-- A side made of a parameter shows what stands at the value of the parameter. -/
theorem TagSite.value_reference (site : TagSite) {name : String} {v : Value}
    (hl : site.context.locals.get? "data" = none)
    (h : site.context.scope.getPath? ["data", parameterType, name, "value"] = some v) :
    (site.value (Parameter.reference name)).value = .ofValue v :=
  site.value_ofPath rfl hl h

end Preflight

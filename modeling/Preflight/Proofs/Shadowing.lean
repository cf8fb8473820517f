import Preflight.Proofs.TagStates

/-!
# Locals that shadow a scope

The locals of a block come before the scope of its module. An expression whose roots are all locals
reads nothing of the scope but which attributes are computed later.

* Following names leaves a value at an object that lacks the next name (`Value.Lacks`). Only there
  the computed paths of a scope count (`Scope.follow_congr`).
* `Context.evaluate_of_shadowed`: over any two scopes such an expression has the same result, unless
  it is unknown in one of them. The results are the same in any case if both scopes agree on what is
  computed wherever a reference leaves a local.
* A local can have the name of a resource type. Attributes that it lacks then count as attributes that
  the resource gets later, and the resource type shows (`Context.not_evaluate_of_shadowed`).
-/

namespace Preflight

/-- Following names leaves a value at the path `p`: the object there lacks the next name. -/
def Value.Lacks (v : Value) (names p : List String) : Prop :=
  ∃ (name : String) (q : List String) (es : Entries Value),
    names = p ++ name :: q ∧ v.getPath? p = some (.object es) ∧ es.get? name = none

/-- Where the names lead to a value, it is not left. -/
theorem Value.not_lacks_of_getPath? {v w : Value} {names : List String}
    (h : v.getPath? names = some w) (p : List String) : ¬ v.Lacks names p := by
  rintro ⟨name, q, es, rfl, hobj, hnone⟩
  rw [getPath?_append, hobj, Option.bind_some, getPath?_cons, entries_object, hnone] at h
  cases h

/-- What is missing behind an attribute is missing from the object that has it. -/
theorem Value.Lacks.object {es : Entries Value} {name : String} {v : Value} {names p : List String}
    (h : v.Lacks names p) (hv : es.get? name = some v) :
    (Value.object es).Lacks (name :: names) (name :: p) := by
  obtain ⟨next, q, fs, hnames, hobj, hnone⟩ := h
  refine ⟨next, q, fs, by rw [hnames]; rfl, ?_, hnone⟩
  rw [Value.getPath?_cons, Value.entries_object, hv]
  exact hobj

/-! ### Following names in two scopes -/

namespace Scope

variable {s s' : Scope}

/-- Two scopes that agree on what is computed where the value is left find the same. -/
theorem follow_congr {path names : List String} {v : Value}
    (h : ∀ p, v.Lacks names p → s.isComputed (path ++ p) = s'.isComputed (path ++ p)) :
    s.follow path v names = s'.follow path v names := by
  induction names generalizing path v with
  | nil => cases v <;> rfl
  | cons name names ih =>
    cases v with
    | object es =>
      cases hv : Entries.get? es name with
      | some v =>
        simp only [follow, hv]
        refine ih fun p hp => ?_
        simpa using h (name :: p) (hp.object hv)
      | none =>
        have hc : s.isComputed path = s'.isComputed path := by
          simpa using h [] ⟨name, names, es, rfl, Value.getPath?_nil _, hv⟩
        simp only [follow, hv, hc]
    | _ => rfl

/-- Two scopes find the same behind one value, unless one of them finds something computed. -/
theorem follow_eq_or_unknown (s s' : Scope) (path names : List String) (v : Value) :
    s.follow path v names = s'.follow path v names ∨
      s.follow path v names = .unknown ∨ s'.follow path v names = .unknown := by
  induction names generalizing path v with
  | nil => cases v <;> exact Or.inl rfl
  | cons name names ih =>
    cases v with
    | object es =>
      cases hv : Entries.get? es name with
      | some v =>
        simp only [follow, hv]
        exact ih _ v
      | none =>
        simp only [follow, hv]
        cases s.isComputed path <;> cases s'.isComputed path <;> simp
    | _ => exact Or.inl rfl

end Scope

/-! ### Expressions of locals -/

namespace Context

variable {s s' : Scope} {locals : Entries Value} {e : Expr}

theorem lookup_of_local {r : Reference} {v : Value} (h : locals.get? r.root = some v) (s : Scope) :
    (Context.mk s locals).lookup r = s.follow [r.root] v r.names := by
  simp only [lookup, root?, h]

/-- In an expression of locals that is not unknown no reference finds something unknown. -/
theorem lookup_ne_unknown (hl : ∀ r ∈ e.references, (locals.get? r.root).isSome = true)
    (h : (Context.mk s locals).evaluate e ≠ .ok .unknown) {r : Reference} (hr : r ∈ e.references) :
    (Context.mk s locals).lookup r ≠ .unknown := by
  intro hu
  refine h ((evaluate_eq_unknown_iff _ e).2 ⟨fun r hr => ?_, r, hr, ?_⟩)
  · rw [root?_isSome_iff]
    exact Or.inl (hl r hr)
  · rw [← isOpen_lookup_iff, hu]
    rfl

/-- An expression of locals alone has the same result over any two scopes, unless it is unknown over
one of them; and the same value or none over both if they agree on what is computed later wherever a
reference leaves a local. -/
theorem evaluate_of_shadowed (hl : ∀ r ∈ e.references, (locals.get? r.root).isSome = true)
    (s s' : Scope) :
    ((Context.mk s locals).evaluate e = .ok .unknown ∨
      (Context.mk s' locals).evaluate e = .ok .unknown ∨
      SameResult ((Context.mk s locals).evaluate e) ((Context.mk s' locals).evaluate e)) ∧
    ((∀ r ∈ e.references, ∀ v p, locals.get? r.root = some v → v.Lacks r.names p →
        s.isComputed (r.root :: p) = s'.isComputed (r.root :: p)) →
      ∀ v, (Context.mk s locals).evaluate e = .ok v ↔
        (Context.mk s' locals).evaluate e = .ok v) := by
  constructor
  · by_cases hu : (Context.mk s locals).evaluate e = .ok .unknown
    · exact Or.inl hu
    by_cases hu' : (Context.mk s' locals).evaluate e = .ok .unknown
    · exact Or.inr (Or.inl hu')
    -- Nothing computed is found in either scope, so all lookups are the same.
    refine Or.inr (Or.inr (evaluate_congr fun r hr => ?_))
    obtain ⟨v, hv⟩ := Option.isSome_iff_exists.1 (hl r hr)
    have hn := lookup_ne_unknown hl hu hr
    have hn' := lookup_ne_unknown hl hu' hr
    rw [lookup_of_local hv] at hn hn' ⊢
    rw [lookup_of_local hv]
    rcases Scope.follow_eq_or_unknown s s' [r.root] r.names v with heq | hf | hf
    · exact heq
    · exact absurd hf hn
    · exact absurd hf hn'
  · intro hc v
    have hsame : SameResult ((Context.mk s locals).evaluate e)
        ((Context.mk s' locals).evaluate e) := by
      refine evaluate_congr fun r hr => ?_
      obtain ⟨w, hw⟩ := Option.isSome_iff_exists.1 (hl r hr)
      rw [lookup_of_local hw, lookup_of_local hw]
      exact Scope.follow_congr fun p hp => hc r hr w p hw hp
    exact ⟨hsame.eq_ok, hsame.symm.eq_ok⟩

/-! ### An iterator with the name of a resource type -/

/-- The locals in a block made from a dynamic one whose iterator is `docker_image`. -/
def imageIterator : Entries Value :=
  [("docker_image", .object [("key", .number (.int 0)),
    ("value", .object [("name", .string "ubuntu")])])]

/-- A scope with a resource of the type `docker_image`. -/
def imageResource : Scope :=
  ⟨[("docker_image", .object [("base", .object [("name", .string "debian")])])],
    [["docker_image"]]⟩

/-- The name of the member is read in the same way whether there is such a resource or not. -/
theorem evaluate_of_shadowed_imageIterator :
    let e : Expr := .ofPath "docker_image" ["value", "name"]
    (∀ r ∈ e.references, (imageIterator.get? r.root).isSome = true) ∧
      (∀ r ∈ e.references, ∀ v p, imageIterator.get? r.root = some v → v.Lacks r.names p →
        imageResource.isComputed (r.root :: p) = Scope.empty.isComputed (r.root :: p)) ∧
      (Context.mk imageResource imageIterator).evaluate e = .ok (.string "ubuntu") := by
  intro e
  have hrefs : ∀ r ∈ e.references, r = .ofPath "docker_image" ["value", "name"] := fun r hr => by
    rwa [Expr.references_ofPath, List.mem_singleton] at hr
  have hl : ∀ r ∈ e.references, (imageIterator.get? r.root).isSome = true := fun r hr => by
    rw [hrefs r hr]
    rfl
  have hc : ∀ r ∈ e.references, ∀ v p, imageIterator.get? r.root = some v → v.Lacks r.names p →
      imageResource.isComputed (r.root :: p) = Scope.empty.isComputed (r.root :: p) := by
    intro r hr v p hv hlacks
    rw [hrefs r hr] at hv hlacks
    cases hv
    exact absurd hlacks (Value.not_lacks_of_getPath? rfl p)
  exact ⟨hl, hc, ((evaluate_of_shadowed hl _ _).2 hc _).2 rfl⟩

/-- An attribute that the member lacks is an error without such a resource and unknown with it; where
the attribute is not even chosen, the value is known without the resource and unknown with it. -/
theorem not_evaluate_of_shadowed :
    let digest : Expr := .ofPath "docker_image" ["value", "digest"]
    let chosen : Expr := .conditional (.bool true) (.ofPath "docker_image" ["value", "name"]) digest
    (∀ r ∈ chosen.references, (imageIterator.get? r.root).isSome = true) ∧
      (∃ err, (Context.mk .empty imageIterator).evaluate digest = .error err) ∧
      (Context.mk imageResource imageIterator).evaluate digest = .ok .unknown ∧
      (Context.mk .empty imageIterator).evaluate chosen = .ok (.string "ubuntu") ∧
      (Context.mk imageResource imageIterator).evaluate chosen = .ok .unknown := by
  refine ⟨?_, ⟨_, rfl⟩, rfl, rfl, rfl⟩
  decide

end Context
end Preflight

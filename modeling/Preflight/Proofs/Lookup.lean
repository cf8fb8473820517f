import Mathlib.Data.List.Find
import Preflight.Context
import Preflight.Proofs.Outcome

/-!
# Evaluation in a context sees lookups only

What an expression is worth in a context is settled by the lookups of its references.

* A lookup is open if it finds something of which not everything is known. It settles another one if
  that one finds the same as soon as the first is not open (`Lookup.Settles`).
* `Context.evaluate_of_settles`: where lookups settle others, a result other than unknown stays.
* `Context.evaluate_congr`: equal lookups give the same result.
* `Context.evaluate_compatible`: two lookups that never find different known values never give two
  different known values of an expression.
-/

namespace Preflight

section Related

variable {α : Type} {R S : α → α → Prop} {a b : Option α}

theorem rel_of_eq (hR : ∀ x, R x x) (h : a = b) : Option.Rel R a b := by
  rw [h]
  cases b with
  | none => exact .none
  | some x => exact .some (hR x)

theorem rel_imp (h : Option.Rel R a b) (hRS : ∀ x y, R x y → S x y) : Option.Rel S a b := by
  cases h with
  | none => exact .none
  | some h => exact .some (hRS _ _ h)

theorem rel_cases (h : Option.Rel R a b) :
    a = none ∧ b = none ∨ ∃ x y, a = some x ∧ b = some y ∧ R x y := by
  cases h with
  | none => exact Or.inl ⟨rfl, rfl⟩
  | some h => exact Or.inr ⟨_, _, rfl, rfl, h⟩

theorem exists_of_rel (h : Option.Rel R a b) {x : α} (ha : a = some x) : ∃ y, b = some y ∧ R x y := by
  cases h with
  | none => cases ha
  | some h =>
    cases ha
    exact ⟨_, rfl, h⟩

end Related

namespace Lookup

/-- The value that a lookup finds. -/
def found? : Lookup → Option Value
  | .found v => some v
  | _ => none

/-- Whether a lookup finds something of which not everything is known. -/
def isOpen : Lookup → Bool
  | .unknown => true
  | .found v => !v.isWhollyKnown
  | _ => false

theorem found?_eq_some {l : Lookup} {v : Value} : l.found? = some v ↔ l = .found v := by
  cases l <;> simp [found?]

theorem isWhollyKnown_of_found {l : Lookup} {v : Value} (h : l = .found v) (hc : l.isOpen = false) :
    v.isWhollyKnown = true := by
  rw [h] at hc
  simpa [isOpen] using hc

/-- The second lookup finds the same as the first unless the first is open; then it finds at least a
root. -/
structure Settles (l l' : Lookup) : Prop where
  declared : l.isOpen → l' ≠ .undeclared
  closed : l.isOpen = false → l' = l

theorem Settles.refl (l : Lookup) : l.Settles l where
  declared h hu := by
    rw [hu] at h
    cases h
  closed _ := rfl

theorem Settles.undeclared_iff {l l' : Lookup} (h : l.Settles l') :
    l' = .undeclared ↔ l = .undeclared := by
  cases ho : l.isOpen with
  | false => rw [h.closed ho]
  | true =>
    constructor
    · exact fun hu => absurd hu (h.declared ho)
    · intro hu
      rw [hu] at ho
      cases ho

end Lookup

/-- The same value, the same missing variable, or a failure of the expression itself in both. -/
inductive SameResult : Except EvalError Value → Except EvalError Value → Prop
  | value (v : Value) : SameResult (.ok v) (.ok v)
  | undefined (name : String) :
      SameResult (.error (.undefinedVariable name)) (.error (.undefinedVariable name))
  | failure (f g : EvalFailure) : SameResult (.error (.expression f)) (.error (.expression g))

namespace SameResult

variable {x y : Except EvalError Value}

theorem symm (h : SameResult x y) : SameResult y x := by
  cases h with
  | value v => exact .value v
  | undefined name => exact .undefined name
  | failure f g => exact .failure g f

theorem eq_ok (h : SameResult x y) {v : Value} (hx : x = .ok v) : y = .ok v := by
  cases h with
  | value w => exact hx
  | undefined name => cases hx
  | failure f g => cases hx

theorem eq_undefined (h : SameResult x y) {name : String}
    (hx : x = .error (.undefinedVariable name)) : y = .error (.undefinedVariable name) := by
  cases h with
  | value w => cases hx
  | undefined name => exact hx
  | failure f g => cases hx

theorem exists_failure (h : SameResult x y) {f : EvalFailure} (hx : x = .error (.expression f)) :
    ∃ g, y = .error (.expression g) := by
  cases h with
  | value w => cases hx
  | undefined name => cases hx
  | failure f g => exact ⟨g, rfl⟩

end SameResult

mutual
theorem Value.isWhollyKnown_ofDatum : (d : Datum) → (Value.ofDatum d).isWhollyKnown = true
  | .null | .bool _ | .number _ | .string _ => rfl
  | .list items => by
    rw [Value.ofDatum, Value.isWhollyKnown]
    exact Value.allKnown_ofData items
  | .object entries => by
    rw [Value.ofDatum, Value.isWhollyKnown]
    exact Value.allEntriesKnown_ofDatumEntries entries

theorem Value.allKnown_ofData : (ds : List Datum) → Value.allKnown (Value.ofData ds) = true
  | [] => rfl
  | d :: ds => by
    rw [Value.ofData, Value.allKnown, Value.isWhollyKnown_ofDatum d, Value.allKnown_ofData ds]
    rfl

theorem Value.allEntriesKnown_ofDatumEntries :
    (es : List (String × Datum)) → Value.allEntriesKnown (Value.ofDatumEntries es) = true
  | [] => rfl
  | (k, d) :: es => by
    rw [Value.ofDatumEntries, Value.allEntriesKnown, Value.isWhollyKnown_ofDatum d,
      Value.allEntriesKnown_ofDatumEntries es]
    rfl
end

namespace Value

theorem toData_eq_map (vs : List Value) : toData vs = vs.map toDatum := by
  induction vs with
  | nil => rfl
  | cons v vs ih => rw [toData, ih, List.map_cons]

theorem toDatumEntries_eq_map (es : List (String × Value)) :
    toDatumEntries es = es.map fun e => (e.1, e.2.toDatum) := by
  induction es with
  | nil => rfl
  | cons e es ih => rw [toDatumEntries, ih]; rfl

end Value

theorem Scope.isComputed_congr {s s' : Scope} (h : ∀ path, path ∈ s.computed ↔ path ∈ s'.computed)
    (path : List String) : s.isComputed path = s'.isComputed path := by
  rw [isComputed, isComputed, Bool.eq_iff_iff, List.any_eq_true, List.any_eq_true]
  simp only [h]

/-- Following attribute names finds a value exactly where its datum has one. -/
theorem Scope.found?_follow (s : Scope) (path : List String) (v : Value) (names : List String) :
    (s.follow path v names).found?.map Value.toDatum = v.toDatum.getPath? names := by
  induction names generalizing path v with
  | nil => cases v <;> rfl
  | cons name names ih =>
    cases v with
    | object entries =>
      rw [Value.toDatum, Value.toDatumEntries_eq_map]
      simp only [follow, Datum.getPath?, Entries.get?_map]
      cases Entries.get? entries name with
      | some v => exact ih _ v
      | none => by_cases h : s.isComputed path <;> simp [h, Lookup.found?]
    | _ => rfl

namespace Context

theorem get?_env (c : Context) (name : String) :
    Entries.get? c.env name = (c.root? name).map Value.toDatum := by
  rw [env, Entries.get?_map, Entries.get?_append, root?, Scope.get?]
  cases Entries.get? c.locals name <;> rfl

/-- What a reference reaches in the environment of a context is what its lookup finds. -/
theorem reach?_env (c : Context) (r : Reference) :
    c.env.reach? r = (c.lookup r).found?.map Value.toDatum := by
  rw [Env.reach?, get?_env, lookup]
  cases c.root? r.root with
  | none => rfl
  | some v => exact (Scope.found?_follow _ _ v _).symm

theorem isOpen_eq (c : Context) (r : Reference) : c.isOpen r = (c.lookup r).isOpen := by
  rw [isOpen]
  cases c.lookup r <;> rfl

theorem isUndeclared_iff (c : Context) (r : Reference) :
    c.isUndeclared r = true ↔ c.lookup r = .undeclared := by
  rw [isUndeclared]
  cases c.lookup r <;> simp

theorem evaluate_of_undeclared {c : Context} {e : Expr} {r : Reference}
    (h : e.references.find? c.isUndeclared = some r) :
    c.evaluate e = .error (.undefinedVariable r.root) := by
  rw [evaluate, h]

theorem evaluate_of_open {c : Context} {e : Expr} (hd : e.references.find? c.isUndeclared = none)
    (ho : ∃ r ∈ e.references, (c.lookup r).isOpen = true) : c.evaluate e = .ok .unknown := by
  have ha : e.references.any c.isOpen = true := by
    simpa only [List.any_eq_true, isOpen_eq] using ho
  rw [evaluate, hd]
  simp only [ha, if_true]

theorem evaluate_of_closed {c : Context} {e : Expr} (hd : e.references.find? c.isUndeclared = none)
    (hc : ∀ r ∈ e.references, (c.lookup r).isOpen = false) : c.evaluate e =
      match e.eval c.env with
      | .ok d => .ok (.ofDatum d)
      | .error f => .error (.expression f) := by
  have ha : e.references.any c.isOpen = false := by
    simpa only [List.any_eq_false, isOpen_eq, Bool.not_eq_true] using hc
  rw [evaluate, hd]
  simp only [ha]
  rfl

/-- A value other than unknown comes from the expression itself, with all references closed. -/
theorem evaluate_eq_ok {c : Context} {e : Expr} {v : Value} (h : c.evaluate e = .ok v) :
    v = .unknown ∨ (∀ r ∈ e.references, (c.lookup r).isOpen = false) ∧
      ∃ d, e.eval c.env = .ok d ∧ v = .ofDatum d := by
  cases hd : e.references.find? c.isUndeclared with
  | some r =>
    rw [evaluate_of_undeclared hd] at h
    cases h
  | none =>
    by_cases ho : ∃ r ∈ e.references, (c.lookup r).isOpen = true
    · rw [evaluate_of_open hd ho] at h
      cases h
      exact Or.inl rfl
    · have hc : ∀ r ∈ e.references, (c.lookup r).isOpen = false :=
        fun r hr => Bool.eq_false_iff.2 fun hop => ho ⟨r, hr, hop⟩
      rw [evaluate_of_closed hd hc] at h
      cases he : e.eval c.env with
      | error f =>
        rw [he] at h
        cases h
      | ok d =>
        rw [he] at h
        cases h
        exact Or.inr ⟨hc, d, rfl, rfl⟩

/-- A value is wholly known or unknown as a whole. -/
theorem isWhollyKnown_of_evaluate {c : Context} {e : Expr} {v : Value} (h : c.evaluate e = .ok v)
    (hv : v ≠ .unknown) : v.isWhollyKnown = true := by
  rcases evaluate_eq_ok h with hu | ⟨-, d, -, rfl⟩
  · exact absurd hu hv
  · exact Value.isWhollyKnown_ofDatum d

/-- Where lookups settle those of another context, a result other than unknown stays. -/
theorem evaluate_of_settles {c c' : Context} {e : Expr}
    (h : ∀ r ∈ e.references, (c.lookup r).Settles (c'.lookup r)) :
    c.evaluate e = .ok .unknown ∨ SameResult (c.evaluate e) (c'.evaluate e) := by
  have hu : e.references.find? c'.isUndeclared = e.references.find? c.isUndeclared :=
    List.find?_congr fun r hr => by
      rw [Bool.eq_iff_iff, isUndeclared_iff, isUndeclared_iff, (h r hr).undeclared_iff]
  cases hd : e.references.find? c.isUndeclared with
  | some r =>
    rw [evaluate_of_undeclared hd, evaluate_of_undeclared (hu.trans hd)]
    exact Or.inr (.undefined r.root)
  | none =>
    by_cases ho : ∃ r ∈ e.references, (c.lookup r).isOpen = true
    · exact Or.inl (evaluate_of_open hd ho)
    · have hc : ∀ r ∈ e.references, (c.lookup r).isOpen = false :=
        fun r hr => Bool.eq_false_iff.2 fun hop => ho ⟨r, hr, hop⟩
      -- All references are closed, so the two environments are the same where it matters.
      have hl : ∀ r ∈ e.references, c'.lookup r = c.lookup r :=
        fun r hr => (h r hr).closed (hc r hr)
      have he : (e.eval c.env).toOption = (e.eval c'.env).toOption :=
        e.eval_rel .same fun r hr => by
          rw [reach?_env, reach?_env, hl r hr]
          exact OutcomeRelation.same.refl _
      have hc' : ∀ r ∈ e.references, (c'.lookup r).isOpen = false := fun r hr => by
        rw [hl r hr, hc r hr]
      right
      rw [evaluate_of_closed hd hc, evaluate_of_closed (hu.trans hd) hc']
      cases hv : e.eval c.env with
      | ok d =>
        rw [hv] at he
        rw [toOption_eq_some.1 he.symm]
        exact .value _
      | error f =>
        rw [hv] at he
        obtain ⟨g, hg⟩ := toOption_eq_none.1 he.symm
        rw [hg]
        exact .failure f g

/-- Equal lookups give the same result. -/
theorem evaluate_congr {c c' : Context} {e : Expr}
    (h : ∀ r ∈ e.references, c.lookup r = c'.lookup r) :
    SameResult (c.evaluate e) (c'.evaluate e) := by
  have hl : ∀ r ∈ e.references, (c.lookup r).Settles (c'.lookup r) := fun r hr => by
    rw [h r hr]
    exact .refl _
  have hr : ∀ r ∈ e.references, (c'.lookup r).Settles (c.lookup r) := fun r hr => by
    rw [h r hr]
    exact .refl _
  rcases evaluate_of_settles hl with hu | hs
  -- Read the other way round: once the first result is unknown, the second one is unknown or the same.
  · rcases evaluate_of_settles hr with hu' | hs
    · rw [hu, hu']
      exact .value _
    · exact hs.symm
  · exact hs

theorem value_eq_of_sameResult {c c' : Context} {e : Expr}
    (h : SameResult (c.evaluate e) (c'.evaluate e)) : c.value e = c'.value e := by
  rw [value, value]
  generalize c.evaluate e = x at h ⊢
  generalize c'.evaluate e = y at h ⊢
  cases h <;> rfl

theorem value_congr {c c' : Context} {e : Expr}
    (h : ∀ r ∈ e.references, c.lookup r = c'.lookup r) : c.value e = c'.value e :=
  value_eq_of_sameResult (evaluate_congr h)

theorem evaluate_of_value {c : Context} {e : Expr} (h : c.value e ≠ .unknown) :
    c.evaluate e = .ok (c.value e) := by
  rw [value] at h ⊢
  cases he : c.evaluate e with
  | ok v => rfl
  | error err =>
    rw [he] at h
    exact absurd rfl h

/-- Lookups that never find different known values never give an expression two different known
values. -/
theorem evaluate_compatible {c c' : Context} {e : Expr}
    (h : ∀ r ∈ e.references, ∀ v w, c.lookup r = .found v → c'.lookup r = .found w →
      v.isWhollyKnown = true → w.isWhollyKnown = true → v = w)
    {v w : Value} (hv : c.evaluate e = .ok v) (hw : c'.evaluate e = .ok w)
    (hvu : v ≠ .unknown) (hwu : w ≠ .unknown) : v = w := by
  rcases evaluate_eq_ok hv with hu | ⟨hc, d, hd, rfl⟩
  · exact absurd hu hvu
  rcases evaluate_eq_ok hw with hu | ⟨hc', d', hd', rfl⟩
  · exact absurd hu hwu
  have hr : ∀ r ∈ e.references, OutcomeRelation.compatible.rel (c.env.reach? r) (c'.env.reach? r) := by
    intro r hr x y hx hy
    rw [reach?_env] at hx hy
    obtain ⟨v, hv, rfl⟩ := Option.map_eq_some_iff.1 hx
    obtain ⟨w, hw, rfl⟩ := Option.map_eq_some_iff.1 hy
    rw [Lookup.found?_eq_some] at hv hw
    rw [h r hr v w hv hw (Lookup.isWhollyKnown_of_found hv (hc r hr))
      (Lookup.isWhollyKnown_of_found hw (hc' r hr))]
  have hdd : d = d' := e.eval_rel .compatible hr d d' (by rw [hd]; rfl) (by rw [hd']; rfl)
  rw [hdd]

end Context
end Preflight

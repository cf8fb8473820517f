import Preflight.Parameter
import Preflight.Proofs.Paths
import Preflight.Proofs.Refinement

/-!
# Values written back keep scopes settled

The value of a parameter is written into its object under one name. Where a first run writes
something unknown, a second one may write a value or nothing at all; the objects of the two runs then
differ in shape, but still settle if that name may be gone (`Scope.Settles.writeBack`).

* `ParameterValue.Settles` says which values a parameter can have in the second run.
* `Value.Settles.set_attribute` is the step for one object, at any depth.
-/

namespace Preflight

namespace Value

section Insert

variable {gone : List String} {name : String} {v w x y : Value} {es fs : Entries Value}

/-- Writing under a name that is there in both objects. -/
theorem SettlesEntries.insert (h : SettlesEntries gone es fs) (he : es.get? name = some v)
    (hf : fs.get? name = some w) (hxy : x.Settles gone y) :
    SettlesEntries gone (es.insert name x) (fs.insert name y) := by
  induction es generalizing fs with
  | nil => cases he
  | cons e es ih =>
    obtain ⟨k, u⟩ := e
    obtain ⟨u', fs, rfl, hu, hes⟩ | ⟨rfl, -⟩ := settlesEntries_cons.1 h
    · by_cases hk : k = name
      · simp only [Entries.insert, hk, if_true]
        exact settlesEntries_cons.2 (Or.inl ⟨y, fs, rfl, hxy, hes⟩)
      · simp only [Entries.get?_cons, hk, if_false] at he hf
        simp only [Entries.insert, hk, if_false]
        exact settlesEntries_cons.2 (Or.inl ⟨u', _, rfl, hu, ih hes he hf⟩)
    · cases hf

/-- Writing under the name that may be gone. -/
theorem SettlesEntries.insert_gone (h : SettlesEntries [name] es fs) (hxy : x.Settles [name] y) :
    SettlesEntries [name] (es.insert name x) (fs.insert name y) := by
  induction es generalizing fs with
  | nil =>
    rw [settlesEntries_nil.1 h]
    exact settlesEntries_cons.2 (Or.inl ⟨y, [], rfl, hxy, settlesEntries_nil.2 rfl⟩)
  | cons e es ih =>
    obtain ⟨k, u⟩ := e
    obtain ⟨u', fs, rfl, hu, hes⟩ | ⟨rfl, hk, -, rfl⟩ := settlesEntries_cons.1 h
    · by_cases hk : k = name
      · simp only [Entries.insert, hk, if_true]
        exact settlesEntries_cons.2 (Or.inl ⟨y, fs, rfl, hxy, hes⟩)
      · simp only [Entries.insert, hk, if_false]
        exact settlesEntries_cons.2 (Or.inl ⟨u', _, rfl, hu, ih hes⟩)
    -- The second run catches up on the name that it did not write before.
    · obtain rfl := List.mem_singleton.1 hk
      simp only [Entries.insert, if_true]
      exact settlesEntries_cons.2 (Or.inl ⟨y, [], rfl, hxy, settlesEntries_nil.2 rfl⟩)

/-- Writing something unknown under the name that may be gone into the first object only. -/
theorem SettlesEntries.insert_unknown (h : SettlesEntries [name] es fs) :
    SettlesEntries [name] (es.insert name .unknown) fs := by
  induction es generalizing fs with
  | nil =>
    rw [settlesEntries_nil.1 h]
    exact settlesEntries_cons.2 (Or.inr ⟨rfl, List.mem_singleton_self name, rfl, rfl⟩)
  | cons e es ih =>
    obtain ⟨k, u⟩ := e
    obtain ⟨u', fs, rfl, hu, hes⟩ | ⟨rfl, hk, -, rfl⟩ := settlesEntries_cons.1 h
    · by_cases hk : k = name
      · simp only [Entries.insert, hk, if_true]
        exact settlesEntries_cons.2 (Or.inl ⟨u', fs, rfl, settles_unknown u', hes⟩)
      · simp only [Entries.insert, hk, if_false]
        exact settlesEntries_cons.2 (Or.inl ⟨u', fs, rfl, hu, ih hes⟩)
    · obtain rfl := List.mem_singleton.1 hk
      simp only [Entries.insert, if_true]
      exact settlesEntries_cons.2 (Or.inr ⟨rfl, hk, rfl, rfl⟩)

theorem SettlesEntries.exists_of_get? (h : SettlesEntries gone es fs)
    (hv : es.get? name = some v) (hu : v ≠ .unknown) :
    ∃ w, fs.get? name = some w ∧ v.Settles gone w := by
  rcases h.get? name with hr | ⟨hn, -⟩
  · exact exists_of_rel hr hv
  · rw [hn] at hv
    cases hv
    exact absurd rfl hu

theorem ne_unknown_of_object {p : List String} (h : v.getPath? p = some (.object es)) :
    v ≠ .unknown := by
  rintro rfl
  cases p <;> cases h

/-- An object stands at the same path in a value that settles another one. -/
theorem Settles.exists_object {p : List String} (h : v.Settles gone w)
    (hp : v.getPath? p = some (.object es)) :
    ∃ fs, w.getPath? p = some (.object fs) ∧ SettlesEntries gone es fs := by
  induction p generalizing v w with
  | nil =>
    rw [getPath?_nil] at hp
    obtain rfl := Option.some.inj hp
    obtain ⟨fs, rfl, hf⟩ := settles_object.1 h
    exact ⟨fs, getPath?_nil _, hf⟩
  | cons name p ih =>
    obtain ⟨vs, rfl⟩ := exists_object_of_getPath? (by simp) hp
    obtain ⟨ws, rfl, hw⟩ := settles_object.1 h
    rw [getPath?_cons, entries] at hp
    obtain ⟨u, hu, hp⟩ := Option.bind_eq_some_iff.1 hp
    obtain ⟨u', hu', huu'⟩ := hw.exists_of_get? hu (ne_unknown_of_object hp)
    obtain ⟨fs, hf, hfs⟩ := ih huu' hp
    refine ⟨fs, ?_, hfs⟩
    rw [getPath?_cons, entries, hu', Option.bind_some, hf]

/-- Writing where both values hold objects. -/
theorem Settles.set {p : List String} (h : v.Settles gone w)
    (hp : v.getPath? p = some (.object es)) (hxy : x.Settles gone y) :
    (v.set p x).Settles gone (w.set p y) := by
  induction p generalizing v w with
  | nil => simpa [Value.set] using hxy
  | cons name p ih =>
    obtain ⟨vs, rfl⟩ := exists_object_of_getPath? (by simp) hp
    obtain ⟨ws, rfl, hw⟩ := settles_object.1 h
    rw [getPath?_cons, entries] at hp
    obtain ⟨u, hu, hp⟩ := Option.bind_eq_some_iff.1 hp
    obtain ⟨u', hu', huu'⟩ := hw.exists_of_get? hu (ne_unknown_of_object hp)
    rw [set_cons, set_cons, entries, entries, hu, hu', Option.getD_some, Option.getD_some]
    exact settles_object.2 ⟨_, rfl, hw.insert hu hu' (ih huu' hp)⟩

/-- Writing an attribute that may be gone into an object, in both values or, if it is unknown, in the
first one only. -/
theorem Settles.set_attribute {p : List String} (h : v.Settles [name] w)
    (hp : v.getPath? p = some (.object es)) :
    (∀ x y : Value, x.Settles [name] y →
      (v.set (p ++ [name]) x).Settles [name] (w.set (p ++ [name]) y)) ∧
    (v.set (p ++ [name]) .unknown).Settles [name] w := by
  obtain ⟨fs, hw, hfs⟩ := h.exists_object hp
  have hset : ∀ (es : Entries Value) (x : Value),
      (Value.object es).set [name] x = .object (es.insert name x) := fun es x => by
    rw [set_cons, entries, Value.set]
  constructor
  · intro x y hxy
    rw [set_append, set_append, hp, hw, Option.getD_some, Option.getD_some, hset, hset]
    exact h.set hp (settles_object.2 ⟨_, rfl, hfs.insert_gone hxy⟩)
  · rw [set_append, hp, Option.getD_some, hset, ← set_of_getPath? hw]
    exact h.set hp (settles_object.2 ⟨_, rfl, hfs.insert_unknown⟩)

end Insert

end Value

namespace Scope

theorem declare_of_get? {s : Scope} {name : String} {v : Value} (h : s.get? name = some v) :
    s.declare name v = s := by
  rw [declare, Entries.insert_of_get? h]

theorem Settles.declare {gone : List String} {s s' : Scope} (h : s.Settles gone s') (root : String)
    {v w : Value} (hvw : v.Settles gone w) :
    (s.declare root v).Settles gone (s'.declare root w) := by
  refine ⟨fun name => ?_, h.computed⟩
  simp only [Scope.declare, get?]
  by_cases hn : root = name
  · subst hn
    rw [Entries.get?_insert_self, Entries.get?_insert_self]
    exact .some hvw
  · rw [Entries.get?_insert_of_ne _ _ hn, Entries.get?_insert_of_ne _ _ hn]
    exact h.roots name

/-- Writing an attribute that may be gone into an object of a scope, in both scopes or, if it is
unknown, in the first one only. -/
theorem Settles.set_attribute {name : String} {s s' : Scope} {p : List String} {es : Entries Value}
    (h : s.Settles [name] s') (hp : s.getPath? p = some (.object es)) :
    (∀ x y : Value, x.Settles [name] y →
      (s.set (p ++ [name]) x).Settles [name] (s'.set (p ++ [name]) y)) ∧
    (s.set (p ++ [name]) .unknown).Settles [name] s' := by
  cases p with
  | nil => cases hp
  | cons root p =>
    rw [getPath?] at hp
    obtain ⟨v, hv, hp⟩ := Option.bind_eq_some_iff.1 hp
    obtain ⟨w, hw, hvw⟩ := exists_of_rel (h.roots root) hv
    obtain ⟨hboth, hfirst⟩ := hvw.set_attribute hp
    constructor
    · intro x y hxy
      simp only [List.cons_append, Scope.set, hv, hw, Option.getD_some]
      exact h.declare root (hboth x y hxy)
    · simp only [List.cons_append, Scope.set, hv, Option.getD_some]
      rw [← declare_of_get? hw]
      exact h.declare root hfirst

/-- Writing into the object at a path leaves an object at every path that is no longer. -/
theorem exists_object_set {s : Scope} {p q : List String} {name : String} {es : Entries Value}
    (hq : s.getPath? q = some (.object es)) (hqn : q ≠ []) (hl : q.length ≤ p.length) (v : Value) :
    ∃ fs, (s.set (p ++ [name]) v).getPath? q = some (.object fs) := by
  by_cases hqp : q <+: p ++ [name]
  · have hne : q ≠ p ++ [name] := by
      rintro rfl
      exact absurd hl (by simp)
    exact exists_object_above hqn hqp hne (s.getPath?_set_self (by simp) v)
  · have hdiv : Diverge (p ++ [name]) q := by
      refine ⟨fun hpq => ?_, hqp⟩
      have hlen := hpq.length_le
      simp at hlen
      omega
    exact ⟨es, by rw [s.getPath?_set_of_diverge hdiv, hq]⟩

end Scope

/-! ### Values of parameters -/

/-- What the value of a parameter can be in a second run: the same unless it is unknown; an error
may have other reasons. -/
def ParameterValue.Settles : ParameterValue → ParameterValue → Prop
  | .known v, p => p = .known v
  | .unknown, _ => True
  | .errored _, p => ∃ reasons, p = .errored reasons
  | .missing, p => p = .missing

/-- Writing back values that settle keeps scopes settled. -/
theorem Scope.Settles.writeBack {s s' : Scope} (h : s.Settles ["value"] s') {b b' : Block}
    (hb : b.heading = b'.heading) {es : Entries Value}
    (hobj : s.getPath? (b.heading.kind :: b.heading.labels) = some (.object es))
    {p q : ParameterValue} (hpq : p.Settles q) :
    (Parameter.writeBack b s p).Settles ["value"] (Parameter.writeBack b' s' q) := by
  obtain ⟨hboth, hfirst⟩ := h.set_attribute hobj
  have hpath : Parameter.valuePath b' = Parameter.valuePath b := by
    rw [Parameter.valuePath, Parameter.valuePath, hb]
  cases p with
  | known v =>
    obtain rfl := hpq
    simp only [Parameter.writeBack, ParameterValue.written?, hpath]
    exact hboth v v (Value.settles_refl _ v)
  | unknown =>
    rw [Parameter.writeBack, Parameter.writeBack, hpath]
    cases q.written? with
    | some w => exact hboth .unknown w (Value.settles_unknown w)
    | none => exact hfirst
  | errored reasons =>
    obtain ⟨reasons', rfl⟩ := hpq
    exact h
  | missing =>
    obtain rfl := hpq
    exact h

end Preflight

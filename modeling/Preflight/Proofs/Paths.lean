import Preflight.Proofs.Lookup

/-!
# Reading and writing at paths

* A written value is found at its path (`getPath?_set_self`); what is at a path that neither extends
  the written one nor is extended by it stays (`getPath?_set_of_diverge`).
* `Value.SameAlong` says that a path of attribute names does not tell two values apart, and
  `Context.lookup_congr` that it then finds the same.
-/

namespace Preflight

/-- Neither path extends the other. -/
def Diverge (p q : List String) : Prop := ¬ p <+: q ∧ ¬ q <+: p

namespace Diverge

variable {p q : List String}

theorem symm (h : Diverge p q) : Diverge q p := ⟨h.2, h.1⟩

theorem ne_nil (h : Diverge p q) : q ≠ [] := fun hq => h.2 (hq ▸ List.nil_prefix)

theorem of_cons {k : String} (h : Diverge (k :: p) (k :: q)) : Diverge p q :=
  ⟨fun hp => h.1 ((List.prefix_cons_inj k).2 hp), fun hq => h.2 ((List.prefix_cons_inj k).2 hq)⟩

theorem of_length (hl : p.length = q.length) (h : p ≠ q) : Diverge p q :=
  ⟨fun hp => h (hp.eq_of_length hl), fun hq => h (hq.eq_of_length hl.symm).symm⟩

/-- What extends a path lies apart from the same paths. -/
theorem extend {p' : List String} (h : Diverge p q) (hp : p <+: p') : Diverge p' q := by
  refine ⟨fun hq => h.1 (hp.trans hq), fun hq => ?_⟩
  rcases List.prefix_or_prefix_of_prefix hp hq with hpq | hqp
  · exact h.1 hpq
  · exact h.2 hqp

end Diverge

namespace Value

/-- The entries of an object; none of anything else. -/
def entries : Value → Entries Value
  | .object es => es
  | _ => []

@[simp] theorem entries_object (es : Entries Value) : (object es).entries = es := rfl

@[simp] theorem getPath?_nil (v : Value) : v.getPath? [] = some v := by
  cases v <;> rfl

theorem getPath?_cons (v : Value) (name : String) (names : List String) :
    v.getPath? (name :: names) = (v.entries.get? name).bind fun w => w.getPath? names := by
  cases v with
  | object es =>
    rw [getPath?, entries]
    cases Entries.get? es name <;> rfl
  | _ => rfl

theorem set_cons (v : Value) (name : String) (names : List String) (w : Value) :
    v.set (name :: names) w =
      .object (v.entries.insert name (((v.entries.get? name).getD .null).set names w)) := by
  cases v <;> rfl

theorem getPath?_append (v : Value) (p q : List String) :
    v.getPath? (p ++ q) = (v.getPath? p).bind fun w => w.getPath? q := by
  induction p generalizing v with
  | nil => simp
  | cons name p ih => simp only [List.cons_append, getPath?_cons, Option.bind_assoc, ih]

/-- Only objects have something behind them. -/
theorem exists_object_of_getPath? {v w : Value} {p : List String} (hp : p ≠ [])
    (h : v.getPath? p = some w) : ∃ es, v = .object es := by
  cases v with
  | object es => exact ⟨es, rfl⟩
  | _ =>
    cases p with
    | nil => exact absurd rfl hp
    | cons name p => cases h

@[simp] theorem getPath?_set_self (p : List String) (v w : Value) :
    (v.set p w).getPath? p = some w := by
  induction p generalizing v with
  | nil => simp [set]
  | cons name p ih =>
    rw [set_cons, getPath?_cons, entries, Entries.get?_insert_self, Option.bind_some, ih]

/-- The empty object has nothing behind it, and neither has null in its place. -/
theorem getPath?_getD_null (v? : Option Value) {p : List String} (hp : p ≠ []) :
    (v?.getD .null).getPath? p = v?.bind fun v => v.getPath? p := by
  cases v? with
  | some v => rfl
  | none =>
    cases p with
    | nil => exact absurd rfl hp
    | cons name p => rfl

/-- Writing at a path that goes on writes behind what is at its first part. -/
theorem set_append (v : Value) (p q : List String) (w : Value) :
    v.set (p ++ q) w = v.set p (((v.getPath? p).getD .null).set q w) := by
  induction p generalizing v with
  | nil => simp [set]
  | cons name p ih =>
    rw [List.cons_append, set_cons, set_cons, ih, getPath?_cons]
    cases p with
    | nil => cases v.entries.get? name <;> simp
    | cons k p => rw [getPath?_getD_null _ (by simp)]

/-- Writing what is there changes nothing. -/
theorem set_of_getPath? {v w : Value} {p : List String} (h : v.getPath? p = some w) :
    v.set p w = v := by
  induction p generalizing v with
  | nil =>
    rw [getPath?_nil] at h
    exact (Option.some.inj h).symm
  | cons name p ih =>
    obtain ⟨es, rfl⟩ := exists_object_of_getPath? (by simp) h
    rw [getPath?_cons, entries] at h
    obtain ⟨u, hu, h⟩ := Option.bind_eq_some_iff.1 h
    rw [set_cons, entries, hu, Option.getD_some, ih h, Entries.insert_of_get? hu]

/-- Of two values written at one path the second counts. -/
theorem set_set (v : Value) (p : List String) (x y : Value) :
    (v.set p x).set p y = v.set p y := by
  induction p generalizing v with
  | nil => rfl
  | cons name p ih =>
    simp only [set_cons, entries_object, Entries.get?_insert_self, Option.getD_some, ih,
      Entries.insert_insert]

/-- The order of two writes at diverging paths does not matter if there is a value at a part of the
first path that is no part of the second: then no entry is added beside another one. -/
theorem set_comm {v : Value} {p q a : List String} (h : Diverge p q) (hap : a <+: p)
    (haq : ¬ a <+: q) (ha : (v.getPath? a).isSome) (x y : Value) :
    (v.set p x).set q y = (v.set q y).set p x := by
  induction p generalizing v q a with
  | nil => exact absurd List.nil_prefix h.1
  | cons k p ih =>
    cases q with
    | nil => exact absurd rfl h.ne_nil
    | cons l q =>
      cases a with
      | nil => exact absurd List.nil_prefix haq
      | cons j a =>
        obtain ⟨rfl, hap'⟩ := List.cons_prefix_cons.1 hap
        rw [getPath?_cons] at ha
        cases hu : v.entries.get? j with
        | none => simp [hu] at ha
        | some u =>
          rw [hu, Option.bind_some] at ha
          simp only [set_cons, entries_object]
          by_cases hl : j = l
          · subst hl
            have haq : ¬ a <+: q := fun hq => haq ((List.prefix_cons_inj j).2 hq)
            simp only [Entries.get?_insert_self, Option.getD_some, hu, Entries.insert_insert]
            rw [ih h.of_cons hap' haq ha]
          · rw [Entries.get?_insert_of_ne _ _ hl, Entries.get?_insert_of_ne _ _ (Ne.symm hl),
              Entries.insert_comm hl (by rw [hu]; rfl)]

theorem getPath?_set_of_diverge {p q : List String} (h : Diverge p q) (v w : Value) :
    (v.set p w).getPath? q = v.getPath? q := by
  induction p generalizing v q with
  | nil => exact absurd List.nil_prefix h.1
  | cons k p ih =>
    cases q with
    | nil => exact absurd rfl h.ne_nil
    | cons l q =>
      rw [set_cons, getPath?_cons, getPath?_cons, entries]
      by_cases hk : k = l
      · subst hk
        rw [Entries.get?_insert_self, Option.bind_some, ih h.of_cons,
          getPath?_getD_null _ h.of_cons.ne_nil]
      · rw [Entries.get?_insert_of_ne _ _ hk]

end Value

namespace Scope

theorem getPath?_append (s : Scope) {p : List String} (hp : p ≠ []) (q : List String) :
    s.getPath? (p ++ q) = (s.getPath? p).bind fun w => w.getPath? q := by
  cases p with
  | nil => exact absurd rfl hp
  | cons root p =>
    simp only [List.cons_append, getPath?, Value.getPath?_append, Option.bind_assoc]

/-- Objects stand at the shorter paths to a value. -/
theorem exists_object_above {s : Scope} {p q : List String} {v : Value} (hp : p ≠ [])
    (hpq : p <+: q) (hne : p ≠ q) (h : s.getPath? q = some v) :
    ∃ es, s.getPath? p = some (.object es) := by
  obtain ⟨r, rfl⟩ := hpq
  have hr : r ≠ [] := fun hr => hne (by rw [hr, List.append_nil])
  rw [getPath?_append s hp] at h
  obtain ⟨w, hw, h⟩ := Option.bind_eq_some_iff.1 h
  obtain ⟨es, rfl⟩ := Value.exists_object_of_getPath? hr h
  exact ⟨es, hw⟩

theorem getPath?_set_self (s : Scope) {p : List String} (hp : p ≠ []) (w : Value) :
    (s.set p w).getPath? p = some w := by
  cases p with
  | nil => exact absurd rfl hp
  | cons root p => simp [set, declare, getPath?, get?]

theorem getPath?_set_of_diverge (s : Scope) {p q : List String} (h : Diverge p q) (w : Value) :
    (s.set p w).getPath? q = s.getPath? q := by
  cases p with
  | nil => rfl
  | cons k p =>
    cases q with
    | nil => rfl
    | cons l q =>
      simp only [set, declare, getPath?, get?]
      by_cases hk : k = l
      · subst hk
        rw [Entries.get?_insert_self, Option.bind_some, Value.getPath?_set_of_diverge h.of_cons,
          Value.getPath?_getD_null _ h.of_cons.ne_nil]
      · rw [Entries.get?_insert_of_ne _ _ hk]

/-- A scope as the object of its root variables. -/
theorem object_roots_set (s : Scope) {p : List String} (hp : p ≠ []) (w : Value) :
    Value.object (s.set p w).roots = (Value.object s.roots).set p w := by
  cases p with
  | nil => exact absurd rfl hp
  | cons root p => rfl

theorem getPath?_eq (s : Scope) {p : List String} (hp : p ≠ []) :
    s.getPath? p = (Value.object s.roots).getPath? p := by
  cases p with
  | nil => exact absurd rfl hp
  | cons root p => rw [Value.getPath?_cons, getPath?, get?, Value.entries]

@[simp] theorem computed_set (s : Scope) (p : List String) (w : Value) :
    (s.set p w).computed = s.computed := by
  cases p <;> rfl

theorem ext_object {s t : Scope} (hr : Value.object s.roots = .object t.roots)
    (hc : s.computed = t.computed) : s = t := by
  cases s
  cases t
  cases hr
  cases hc
  rfl

theorem set_set (s : Scope) (p : List String) (v w : Value) :
    (s.set p v).set p w = s.set p w := by
  cases p with
  | nil => rfl
  | cons root p =>
    apply ext_object _ (by simp)
    rw [object_roots_set _ (by simp), object_roots_set _ (by simp), object_roots_set _ (by simp),
      Value.set_set]

/-- The order of two writes at diverging paths does not matter if there is a value at a part of the
first path that is no part of the second. -/
theorem set_comm {s : Scope} {p q a : List String} (h : Diverge p q) (hap : a <+: p)
    (haq : ¬ a <+: q) (ha : (s.getPath? a).isSome) (v w : Value) :
    (s.set p v).set q w = (s.set q w).set p v := by
  have hp : p ≠ [] := h.symm.ne_nil
  have hq : q ≠ [] := h.ne_nil
  have han : a ≠ [] := fun han => haq (han ▸ List.nil_prefix)
  rw [getPath?_eq s han] at ha
  apply ext_object _ (by simp)
  rw [object_roots_set _ hq, object_roots_set _ hp, object_roots_set _ hp, object_roots_set _ hq]
  exact Value.set_comm h hap haq ha v w

/-- Writing what is there changes nothing. -/
theorem set_of_getPath? {s : Scope} {p : List String} {v : Value} (h : s.getPath? p = some v) :
    s.set p v = s := by
  cases p with
  | nil => rfl
  | cons root p =>
    apply ext_object _ (by simp)
    rw [getPath?_eq s (by simp)] at h
    rw [object_roots_set _ (by simp), Value.set_of_getPath? h]

/-- What following attribute names finds is what stands at the path. -/
theorem getPath?_of_follow (s : Scope) {path names : List String} {v w : Value}
    (h : s.follow path v names = .found w) : v.getPath? names = some w := by
  induction names generalizing path v with
  | nil =>
    cases h
    exact Value.getPath?_nil _
  | cons name names ih =>
    cases v with
    | object es =>
      rw [follow] at h
      rw [Value.getPath?_cons, Value.entries_object]
      cases hv : Entries.get? es name with
      | some v =>
        rw [hv] at h
        exact ih h
      | none =>
        rw [hv] at h
        by_cases hc : s.isComputed path <;> simp [hc] at h
    | _ => simp [follow] at h

theorem follow_of_getPath? (s : Scope) (path : List String) {v w : Value}
    {names : List String} (h : v.getPath? names = some w) :
    s.follow path v names = .found w := by
  induction names generalizing path v with
  | nil =>
    rw [Value.getPath?_nil] at h
    rw [Option.some.inj h]
    cases w <;> rfl
  | cons name names ih =>
    obtain ⟨es, rfl⟩ := Value.exists_object_of_getPath? (by simp) h
    rw [Value.getPath?_cons, Value.entries_object] at h
    obtain ⟨u, hu, h⟩ := Option.bind_eq_some_iff.1 h
    simp only [follow, hu]
    exact ih _ h

end Scope

/-! ### Paths that do not tell values apart -/

/-- On the way along the names both values are objects or equal, and they are equal at the end. -/
def Value.SameAlong : List String → Value → Value → Prop
  | [], v, w => v = w
  | name :: names, v, w => v = w ∨ ∃ es fs, v = .object es ∧ w = .object fs ∧
    Option.Rel (SameAlong names) (Entries.get? es name) (Entries.get? fs name)

theorem Value.SameAlong.refl (names : List String) (v : Value) : v.SameAlong names v := by
  cases names with
  | nil => rfl
  | cons name names => exact Or.inl rfl

theorem Value.SameAlong.of_getPath? {names : List String} {v? w? : Option Value}
    (hp : ∀ p q, names = p ++ q → q ≠ [] →
      (v?.bind fun v => v.getPath? p) = (w?.bind fun w => w.getPath? p) ∨
        (∃ es, (v?.bind fun v => v.getPath? p) = some (.object es)) ∧
          ∃ fs, (w?.bind fun w => w.getPath? p) = some (.object fs))
    (hn : (v?.bind fun v => v.getPath? names) = w?.bind fun w => w.getPath? names) :
    Option.Rel (Value.SameAlong names) v? w? := by
  induction names generalizing v? w? with
  | nil => exact rel_of_eq (.refl []) (by simpa using hn)
  | cons name names ih =>
    rcases hp [] _ rfl (by simp) with h | ⟨⟨es, hv⟩, fs, hw⟩
    · exact rel_of_eq (.refl (name :: names)) (by simpa using h)
    · have hv : v? = some (.object es) := by simpa using hv
      have hw : w? = some (.object fs) := by simpa using hw
      subst hv hw
      refine .some (Or.inr ⟨es, fs, rfl, rfl, ih (fun p q hpq hq => ?_) ?_⟩)
      · simpa only [Option.bind_some, getPath?_cons, entries] using
          hp (name :: p) q (by rw [hpq]; rfl) hq
      · simpa only [Option.bind_some, getPath?_cons, entries] using hn

theorem Value.SameAlong.follow {s s' : Scope} (hc : ∀ path, s.isComputed path = s'.isComputed path)
    {names : List String} (path : List String) {v w : Value} (h : v.SameAlong names w) :
    s.follow path v names = s'.follow path w names := by
  induction names generalizing path v w with
  | nil =>
    obtain rfl : v = w := h
    rfl
  | cons name names ih =>
    rcases h with rfl | ⟨es, fs, rfl, rfl, h⟩
    · cases v with
      | object es =>
        simp only [Scope.follow, hc]
        cases Entries.get? es name with
        | none => rfl
        | some v => exact ih _ (.refl _ v)
      | _ => rfl
    · simp only [Scope.follow, hc]
      rcases rel_cases h with ⟨he, hf⟩ | ⟨v, w, he, hf, hvw⟩ <;> simp only [he, hf]
      exact ih _ hvw

/-- A reference whose root and path do not tell two scopes apart finds the same in both. -/
theorem Context.lookup_congr {s s' : Scope} (locals : Entries Value) {r : Reference}
    (hc : ∀ path, s.isComputed path = s'.isComputed path)
    (hr : Option.Rel (Value.SameAlong r.names) (s.get? r.root) (s'.get? r.root)) :
    (Context.mk s locals).lookup r = (Context.mk s' locals).lookup r := by
  simp only [lookup, root?]
  cases locals.get? r.root with
  | some v => exact Value.SameAlong.follow hc _ (.refl _ v)
  | none =>
    rcases rel_cases hr with ⟨hs, hs'⟩ | ⟨v, w, hs, hs', hvw⟩ <;> simp only [hs, hs']
    exact hvw.follow hc _

/-- A reference finds the same in two scopes if on its way they hold equal values or objects and at
its end equal values. -/
theorem Context.lookup_congr_of_getPath? {s s' : Scope} (locals : Entries Value) {r : Reference}
    (hc : ∀ path, s.isComputed path = s'.isComputed path)
    (hp : ∀ p q, r.path = p ++ q → p ≠ [] → q ≠ [] → s.getPath? p = s'.getPath? p ∨
      (∃ es, s.getPath? p = some (.object es)) ∧ ∃ fs, s'.getPath? p = some (.object fs))
    (hr : s.getPath? r.path = s'.getPath? r.path) :
    (Context.mk s locals).lookup r = (Context.mk s' locals).lookup r := by
  apply lookup_congr locals hc
  exact Value.SameAlong.of_getPath?
    (fun p q hpq hq => hp (r.root :: p) q (by rw [Reference.path, hpq]; rfl) (by simp) hq) hr

end Preflight

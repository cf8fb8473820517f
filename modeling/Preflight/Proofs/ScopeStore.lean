import Preflight.Proofs.ValueEquality

/-!
# Scopes as stores

What writing at a path does to a scope, looked at from every other path (`Scope.set_store`).

* At the path and behind it there is what was written, in front of it there are objects, and apart from it
  nothing changes.
* An object in front of the path keeps its names in order; at most one comes in behind them.
* Two writes apart from each other can change places. Where both add a name to one object the names come
  in a different order, so the scopes are the same up to the order of entries (`Scope.same_set_comm`).
-/

namespace Preflight

variable {R : NumberRelation}

namespace Value

/-! ### Names in front of a written path -/

/-- An object in front of a written path keeps its names in order. -/
theorem getPath?_set_of_object {v : Value} {q : List String} {es : Entries Value}
    (h : v.getPath? q = some (.object es)) (key : String) (path : List String) (w : Value) :
    ∃ es', (v.set (q ++ key :: path) w).getPath? q = some (.object es') ∧
      Entries.keys es <+: Entries.keys es' := by
  rw [set_append, h, Option.getD_some, set_cons, getPath?_set_self]
  exact ⟨_, rfl, es.keys_prefix_insert _ _⟩

/-! ### Writes that change places -/

theorem Distinct.entries {v : Value} (h : v.Distinct) :
    v.entries.keys.Nodup ∧ ∀ key w, v.entries.get? key = some w → w.Distinct := by
  cases h with
  | object hnames h => exact ⟨hnames, fun key w hw => h _ (Entries.mem_of_get? hw)⟩
  | _ => exact ⟨List.nodup_nil, fun key w hw => nomatch hw⟩

theorem Distinct.getD_null {v : Value} (h : v.Distinct) (key : String) :
    ((v.entries.get? key).getD .null).Distinct := by
  cases hw : v.entries.get? key with
  | none => exact .null
  | some w => exact h.entries.2 key w hw

theorem Distinct.insert {v w : Value} (hv : v.Distinct) (key : String) (hw : w.Distinct) :
    (object (v.entries.insert key w)).Distinct := by
  obtain ⟨hnames, hentries⟩ := hv.entries
  refine .object (Entries.nodup_keys_insert hnames key w) fun e he => ?_
  rcases Entries.mem_of_mem_insert he with he | rfl
  · exact hentries e.1 e.2 ((Entries.get?_eq_some_iff hnames).2 he)
  · exact hw

/-- Writing a value keeps names distinct. -/
theorem Distinct.set {v w : Value} (hv : v.Distinct) (path : List String) (hw : w.Distinct) :
    (v.set path w).Distinct := by
  induction path generalizing v with
  | nil => exact hw
  | cons key path ih =>
    rw [set_cons]
    exact hv.insert key (ih (hv.getD_null key))

/-- Objects with the same values under all names are alike. -/
theorem like_of_get?_eq {es fs : Entries Value} (hes : (object es).Distinct) (hfs : fs.keys.Nodup)
    (h : ∀ key, es.get? key = fs.get? key) : Like R (.object es) (.object fs) := by
  refine like_object.2 ⟨hes.entries.1, hfs, fun key => ?_⟩
  rw [← h key]
  cases hv : Entries.get? es key with
  | none => exact .none
  | some v => exact .some (hes.entries.2 key v hv).like

/-- Objects that differ under one name, where their values are alike, are alike. -/
theorem like_insert {v x y : Value} (hv : v.Distinct) (key : String) (h : Like R x y) :
    Like R (.object (v.entries.insert key x)) (.object (v.entries.insert key y)) := by
  obtain ⟨hnames, hentries⟩ := hv.entries
  refine like_object.2 ⟨Entries.nodup_keys_insert hnames _ _, Entries.nodup_keys_insert hnames _ _,
    fun other => ?_⟩
  by_cases hk : key = other
  · subst hk
    rw [Entries.get?_insert_self, Entries.get?_insert_self]
    exact .some h
  · rw [Entries.get?_insert_of_ne _ _ hk, Entries.get?_insert_of_ne _ _ hk]
    cases hw : v.entries.get? other with
    | none => exact .none
    | some w => exact .some (hentries other w hw).like

theorem get?_insert_insert (es : Entries Value) {key other : String} (h : key ≠ other) (x y : Value)
    (name : String) : ((es.insert key x).insert other y).get? name =
      ((es.insert other y).insert key x).get? name := by
  by_cases hk : key = name
  · subst hk
    rw [Entries.get?_insert_of_ne _ _ h.symm, Entries.get?_insert_self, Entries.get?_insert_self]
  · by_cases ho : other = name
    · subst ho
      rw [Entries.get?_insert_of_ne _ _ h, Entries.get?_insert_self, Entries.get?_insert_self]
    · simp only [Entries.get?_insert_of_ne _ _ hk, Entries.get?_insert_of_ne _ _ ho]

/-- Of two writes apart from each other either one may come first. -/
theorem like_set_comm {v x y : Value} {p q : List String} (h : Diverge p q) (hv : v.Distinct)
    (hx : x.Distinct) (hy : y.Distinct) : Like R ((v.set p x).set q y) ((v.set q y).set p x) := by
  induction p generalizing v q with
  | nil => exact absurd List.nil_prefix h.1
  | cons k p ih =>
    cases q with
    | nil => exact absurd rfl h.ne_nil
    | cons l q =>
      simp only [set_cons, entries_object]
      by_cases hk : k = l
      · subst hk
        simp only [Entries.get?_insert_self, Option.getD_some, Entries.insert_insert]
        exact like_insert hv k (ih h.of_cons (hv.getD_null k))
      · rw [Entries.get?_insert_of_ne _ _ hk, Entries.get?_insert_of_ne _ _ (Ne.symm hk)]
        have hkx := (hv.getD_null k).set p hx
        have hly := (hv.getD_null l).set q hy
        exact like_of_get?_eq ((hv.insert k hkx).insert l hly)
          ((hv.insert l hly).insert k hkx).entries.1 (get?_insert_insert _ hk _ _)

end Value

namespace Scope

/-! ### Scopes -/

/-- No object in a scope has a name twice, and no two root variables have one name. -/
def Distinct (s : Scope) : Prop := (Value.object s.roots).Distinct

/-- In front of a written path there are objects. -/
theorem exists_object_getPath?_set (s : Scope) {p q : List String} (hq : q ≠ []) (hqp : q <+: p)
    (hne : q ≠ p) (v : Value) : ∃ es, (s.set p v).getPath? q = some (.object es) := by
  have hp : p ≠ [] := fun hp => hq (List.prefix_nil.1 (hp ▸ hqp))
  exact exists_object_above hq hqp hne (s.getPath?_set_self hp v)

theorem same_set_comm {s : Scope} {p q : List String} (h : Diverge p q) {v w : Value}
    (hs : s.Distinct) (hv : v.Distinct) (hw : w.Distinct) :
    ((s.set p v).set q w).same ((s.set q w).set p v) = true := by
  have hp : p ≠ [] := h.symm.ne_nil
  have hq : q ≠ [] := h.ne_nil
  have hlike : Value.Like .same (.object ((s.set p v).set q w).roots)
      (.object ((s.set q w).set p v).roots) := by
    rw [object_roots_set _ hq, object_roots_set _ hp, object_roots_set _ hp, object_roots_set _ hq]
    exact Value.like_set_comm h hs hv hw
  rw [same, hlike.equal]
  simp

/-- Objects that are not at the written path or behind it keep their names in order. -/
theorem exists_keys_getPath?_set (s : Scope) {p q : List String} (hp : p ≠ []) {es : Entries Value}
    (h : s.getPath? q = some (.object es)) (hpq : ¬ p <+: q) (v : Value) :
    ∃ es', (s.set p v).getPath? q = some (.object es') ∧
      Entries.keys es <+: Entries.keys es' := by
  have hq : q ≠ [] := by
    rintro rfl
    cases h
  by_cases hqp : q <+: p
  · obtain ⟨path, rfl⟩ := hqp
    rw [getPath?_eq s hq] at h
    rw [getPath?_eq _ hq, object_roots_set s hp]
    cases path with
    | nil => exact absurd (by simp) hpq
    | cons key path => exact Value.getPath?_set_of_object h key path v
  · rw [s.getPath?_set_of_diverge ⟨hpq, hqp⟩]
    exact ⟨es, h, List.prefix_rfl⟩

/-- What a write at a path does to a scope. -/
theorem set_store (s : Scope) {p : List String} (hp : p ≠ []) (v : Value) :
    (∀ rest, (s.set p v).getPath? (p ++ rest) = v.getPath? rest) ∧
    (∀ q, q ≠ [] → q <+: p → q ≠ p → ∃ es, (s.set p v).getPath? q = some (.object es)) ∧
    (∀ q, Diverge p q → (s.set p v).getPath? q = s.getPath? q) ∧
    (s.set p v).computed = s.computed ∧
    s.roots.keys <+: (s.set p v).roots.keys ∧
    (∀ q es, s.getPath? q = some (.object es) → ¬ p <+: q →
      ∃ es', (s.set p v).getPath? q = some (.object es') ∧ Entries.keys es <+: Entries.keys es') ∧
    ∀ q w, Diverge p q → s.Distinct → v.Distinct → w.Distinct →
      ((s.set p v).set q w).same ((s.set q w).set p v) = true := by
  refine ⟨fun rest => ?_, fun q hq hqp hne => s.exists_object_getPath?_set hq hqp hne v,
    fun q h => s.getPath?_set_of_diverge h v, s.computed_set p v, ?_,
    fun q es h hpq => s.exists_keys_getPath?_set hp h hpq v,
    fun q w h hs hv hw => same_set_comm h hs hv hw⟩
  · rw [getPath?_append _ hp, s.getPath?_set_self hp, Option.bind_some]
  · cases p with
    | nil => exact absurd rfl hp
    | cons root path => exact s.roots.keys_prefix_insert _ _

/-- Two writes replace a string by an object. Whichever comes first, both values are there in the end,
beside a variable that is left alone. -/
theorem set_store_region :
    let s : Scope := ⟨[("data", .string "old"), ("var", .object [("zone", .unknown)])], [["docker_image"]]⟩
    let region := ["data", "region", "value"]
    let zone := ["data", "zone"]
    (s.set region (.string "eu")).getPath? region = some (.string "eu") ∧
      (∃ es, (s.set region (.string "eu")).getPath? ["data"] = some (.object es)) ∧
      (s.set region (.string "eu")).getPath? ["var", "zone"] = some .unknown ∧
      ((s.set region (.string "eu")).set zone .null).same
        ((s.set zone .null).set region (.string "eu")) = true := by
  intro s region zone
  obtain ⟨hself, habove, hapart, -, -, -, hcomm⟩ :=
    s.set_store (p := region) (by decide) (.string "eu")
  have hs : s.Distinct := by
    have hzone : (Value.object [("zone", .unknown)]).Distinct :=
      .object (by decide) (by simp [Value.Regular.unknown])
    have hdata : (Value.string "old").Distinct := .string "old"
    exact .object (by decide) (by simpa [s] using ⟨hdata, hzone⟩)
  refine ⟨by simpa using hself [], habove ["data"] (by decide) (by decide) (by decide), ?_, ?_⟩
  · exact (hapart ["var", "zone"] ⟨by decide, by decide⟩).trans rfl
  · exact hcomm zone .null ⟨by decide, by decide⟩ hs (.string "eu") .null

end Scope
end Preflight

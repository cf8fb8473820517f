import Mathlib.Data.Option.Basic
import Preflight.Proofs.Lookup

/-!
# Learning what is unknown

A context refines another one if unknown parts of its values, at any depth, have been replaced by
other values and all else is the same. What an expression is worth in a context stays in every
refinement unless it is unknown: `Context.evaluate_of_refines`.

* `Value.Settles` relates a value to what it may look like later. Besides the replacement of unknown
  parts it allows an unknown entry at the end of an object to be missing, if its name is among the
  given ones; `Value.Refines` is replacement alone.
* Lookups in a value that settles another one settle (`Value.Settles.follow`).
-/

namespace Preflight

namespace Value

mutual
/-- The second value is the first with unknown parts replaced by other values, or missing where they
are the last entry of an object under one of the names in `gone`. -/
def Settles (gone : List String) : Value → Value → Prop
  | .unknown, _ => True
  | .list vs, .list ws => SettlesItems gone vs ws
  | .object es, .object fs => SettlesEntries gone es fs
  | v, w => v = w

/-- The same number of items, settled in turn. -/
def SettlesItems (gone : List String) : List Value → List Value → Prop
  | [], [] => True
  | v :: vs, w :: ws => v.Settles gone w ∧ SettlesItems gone vs ws
  | _, _ => False

/-- The same names in the same order, but for an unknown last entry. -/
def SettlesEntries (gone : List String) :
    List (String × Value) → List (String × Value) → Prop
  | [], [] => True
  | (k, v) :: es, (l, w) :: fs => k = l ∧ v.Settles gone w ∧ SettlesEntries gone es fs
  | (k, v) :: es, [] => k ∈ gone ∧ v = .unknown ∧ es = []
  | [], _ :: _ => False
end

/-- The second value is the first with unknown parts replaced by other values. -/
def Refines (v w : Value) : Prop := v.Settles [] w

section Settles

variable {gone : List String}

@[simp] theorem settles_unknown (w : Value) : Value.unknown.Settles gone w := by
  rw [Settles]
  trivial

theorem settles_list {vs : List Value} {w : Value} :
    (Value.list vs).Settles gone w ↔ ∃ ws, w = .list ws ∧ SettlesItems gone vs ws := by
  cases w <;> simp [Settles]

theorem settles_object {es : List (String × Value)} {w : Value} :
    (Value.object es).Settles gone w ↔ ∃ fs, w = .object fs ∧ SettlesEntries gone es fs := by
  cases w <;> simp [Settles]

theorem settlesItems_cons {v : Value} {vs ws : List Value} :
    SettlesItems gone (v :: vs) ws ↔
      ∃ w ws', ws = w :: ws' ∧ v.Settles gone w ∧ SettlesItems gone vs ws' := by
  cases ws <;> simp [SettlesItems]

theorem settlesItems_nil {ws : List Value} : SettlesItems gone [] ws ↔ ws = [] := by
  cases ws <;> simp [SettlesItems]

theorem settlesEntries_cons {k : String} {v : Value} {es fs : List (String × Value)} :
    SettlesEntries gone ((k, v) :: es) fs ↔
      (∃ w fs', fs = (k, w) :: fs' ∧ v.Settles gone w ∧ SettlesEntries gone es fs') ∨
        (fs = [] ∧ k ∈ gone ∧ v = .unknown ∧ es = []) := by
  cases fs with
  | nil => simp [SettlesEntries]
  | cons f fs =>
    obtain ⟨l, w⟩ := f
    simp only [SettlesEntries, List.cons.injEq, Prod.mk.injEq]
    constructor
    · rintro ⟨rfl, hv, hes⟩
      exact Or.inl ⟨w, fs, ⟨⟨rfl, rfl⟩, rfl⟩, hv, hes⟩
    · rintro (⟨_, _, ⟨⟨rfl, rfl⟩, rfl⟩, hv, hes⟩ | ⟨h, -⟩)
      · exact ⟨rfl, hv, hes⟩
      · cases h

theorem settlesEntries_nil {fs : List (String × Value)} :
    SettlesEntries gone [] fs ↔ fs = [] := by
  cases fs <;> simp [SettlesEntries]

end Settles

mutual
theorem settles_refl (gone : List String) : (v : Value) → v.Settles gone v
  | .unknown => settles_unknown _
  | .null | .bool _ | .number _ | .string _ => by simp [Settles]
  | .list vs => settles_list.2 ⟨vs, rfl, settlesItems_refl gone vs⟩
  | .object es => settles_object.2 ⟨es, rfl, settlesEntries_refl gone es⟩

theorem settlesItems_refl (gone : List String) : (vs : List Value) → SettlesItems gone vs vs
  | [] => settlesItems_nil.2 rfl
  | v :: vs => settlesItems_cons.2 ⟨v, vs, rfl, settles_refl gone v, settlesItems_refl gone vs⟩

theorem settlesEntries_refl (gone : List String) :
    (es : List (String × Value)) → SettlesEntries gone es es
  | [] => settlesEntries_nil.2 rfl
  | (_, v) :: es => settlesEntries_cons.2
      (Or.inl ⟨v, es, rfl, settles_refl gone v, settlesEntries_refl gone es⟩)
end

section Known
variable {gone : List String}
mutual
/-- A wholly known value is settled by itself only. -/
theorem Settles.eq_of_isWhollyKnown : {v w : Value} → v.Settles gone w →
    v.isWhollyKnown = true → w = v
  | .unknown, _, _, hk => by cases hk
  | .null, w, h, _ | .bool _, w, h, _ | .number _, w, h, _ | .string _, w, h, _ => by
    simpa [Settles, eq_comm] using h
  | .list vs, w, h, hk => by
    obtain ⟨ws, rfl, hw⟩ := settles_list.1 h
    rw [SettlesItems.eq_of_allKnown hw hk]
  | .object es, w, h, hk => by
    obtain ⟨fs, rfl, hf⟩ := settles_object.1 h
    rw [SettlesEntries.eq_of_allEntriesKnown hf hk]

theorem SettlesItems.eq_of_allKnown : {vs ws : List Value} → SettlesItems gone vs ws →
    allKnown vs = true → ws = vs
  | [], ws, h, _ => settlesItems_nil.1 h
  | v :: vs, ws, h, hk => by
    obtain ⟨w, ws, rfl, hv, hvs⟩ := settlesItems_cons.1 h
    rw [allKnown, Bool.and_eq_true] at hk
    rw [hv.eq_of_isWhollyKnown hk.1, SettlesItems.eq_of_allKnown hvs hk.2]

theorem SettlesEntries.eq_of_allEntriesKnown : {es fs : List (String × Value)} →
    SettlesEntries gone es fs → allEntriesKnown es = true → fs = es
  | [], fs, h, _ => settlesEntries_nil.1 h
  | (_, v) :: es, fs, h, hk => by
    rw [allEntriesKnown, Bool.and_eq_true] at hk
    obtain ⟨w, fs, rfl, hv, hes⟩ | ⟨-, -, rfl, -⟩ := settlesEntries_cons.1 h
    · rw [hv.eq_of_isWhollyKnown hk.1,
        SettlesEntries.eq_of_allEntriesKnown hes hk.2]
    · cases hk.1
end

mutual
theorem Settles.mono {gone' : List String} (hg : gone ⊆ gone') : (v w : Value) →
    v.Settles gone w → v.Settles gone' w
  | .unknown, _, _ => settles_unknown _
  | .null, w, h | .bool _, w, h | .number _, w, h | .string _, w, h => by
    simpa [Settles] using h
  | .list vs, w, h => by
    obtain ⟨ws, rfl, hw⟩ := settles_list.1 h
    exact settles_list.2 ⟨ws, rfl, SettlesItems.mono hg vs ws hw⟩
  | .object es, w, h => by
    obtain ⟨fs, rfl, hf⟩ := settles_object.1 h
    exact settles_object.2 ⟨fs, rfl, SettlesEntries.mono hg es fs hf⟩

theorem SettlesItems.mono {gone' : List String} (hg : gone ⊆ gone') : (vs ws : List Value) →
    SettlesItems gone vs ws → SettlesItems gone' vs ws
  | [], _, h => settlesItems_nil.2 (settlesItems_nil.1 h)
  | v :: vs, ws, h => by
    obtain ⟨w, ws, rfl, hv, hvs⟩ := settlesItems_cons.1 h
    exact settlesItems_cons.2
      ⟨w, ws, rfl, Settles.mono hg v w hv, SettlesItems.mono hg vs ws hvs⟩

theorem SettlesEntries.mono {gone' : List String} (hg : gone ⊆ gone') :
    (es fs : List (String × Value)) → SettlesEntries gone es fs → SettlesEntries gone' es fs
  | [], _, h => settlesEntries_nil.2 (settlesEntries_nil.1 h)
  | (_, v) :: es, fs, h => by
    obtain ⟨w, fs, rfl, hv, hes⟩ | ⟨rfl, hk, hv, hes⟩ := settlesEntries_cons.1 h
    · exact settlesEntries_cons.2
        (Or.inl ⟨w, fs, rfl, Settles.mono hg v w hv, SettlesEntries.mono hg es fs hes⟩)
    · exact settlesEntries_cons.2 (Or.inr ⟨rfl, hg hk, hv, hes⟩)
end

/-- What a name finds in settled entries: nothing in both, values that settle, or at first something
unknown that is missing later. -/
theorem SettlesEntries.get? {es fs : List (String × Value)} (h : SettlesEntries gone es fs)
    (name : String) :
    Option.Rel (Settles gone) (Entries.get? es name) (Entries.get? fs name) ∨
      Entries.get? es name = some .unknown ∧ Entries.get? fs name = none := by
  induction es generalizing fs with
  | nil =>
    rw [settlesEntries_nil.1 h]
    exact Or.inl .none
  | cons e es ih =>
    obtain ⟨k, v⟩ := e
    obtain ⟨w, fs, rfl, hv, hes⟩ | ⟨rfl, -, rfl, rfl⟩ := settlesEntries_cons.1 h
    · by_cases hk : k = name
      · simp only [Entries.get?_cons, hk, if_true]
        exact Or.inl (.some hv)
      · simp only [Entries.get?_cons, hk, if_false]
        exact ih hes
    · by_cases hk : k = name
      · exact Or.inr ⟨by simp [Entries.get?_cons, hk], rfl⟩
      · simp only [Entries.get?_cons, hk, if_false]
        exact Or.inl .none

end Known

end Value

theorem Scope.isOpen_follow_unknown (s : Scope) (path names : List String) :
    (s.follow path .unknown names).isOpen = true := by
  cases names <;> rfl

theorem Scope.follow_ne_undeclared (s : Scope) (path : List String) (v : Value)
    (names : List String) : s.follow path v names ≠ .undeclared := by
  induction names generalizing path v with
  | nil => cases v <;> simp [follow]
  | cons name names ih =>
    cases v with
    | object es =>
      simp only [follow]
      cases Entries.get? es name with
      | some w => exact ih _ w
      | none => by_cases h : s.isComputed path <;> simp [h]
    | _ => simp [follow]

/-- Lookups in a value settle those in the value that it was. -/
theorem Value.Settles.follow {gone : List String} {s s' : Scope}
    (hc : ∀ path, s.isComputed path = s'.isComputed path) (names path : List String) {v w : Value}
    (h : v.Settles gone w) : (s.follow path v names).Settles (s'.follow path w names) := by
  induction names generalizing path v w with
  | nil =>
    refine ⟨fun _ => s'.follow_ne_undeclared _ _ _, fun ho => ?_⟩
    simp only [Scope.follow] at ho ⊢
    rw [h.eq_of_isWhollyKnown (Lookup.isWhollyKnown_of_found rfl ho)]
  | cons name names ih =>
    cases v with
    -- What lies behind something unknown is open, so nothing has to stay.
    | unknown => exact ⟨fun _ => s'.follow_ne_undeclared _ _ _, fun ho => by cases ho⟩
    | list vs =>
      obtain ⟨ws, rfl, -⟩ := Value.settles_list.1 h
      exact .refl _
    | object es =>
      obtain ⟨fs, rfl, hes⟩ := Value.settles_object.1 h
      simp only [Scope.follow, ← hc]
      rcases hes.get? name with hr | ⟨hu, hn⟩
      · rcases rel_cases hr with ⟨he, hf⟩ | ⟨v, w, he, hf, hvw⟩ <;> simp only [he, hf]
        · exact .refl _
        · exact ih _ hvw
      · simp only [hu, hn]
        refine ⟨fun _ => by by_cases h : s.isComputed path <;> simp [h], fun ho => ?_⟩
        rw [s.isOpen_follow_unknown] at ho
        cases ho
    | null | bool _ | number _ | string _ =>
      rw [h.eq_of_isWhollyKnown rfl]
      exact .refl _

/-! ### Scopes and contexts -/

/-- The same root names with values that settle, and the same computed paths. -/
structure Scope.Settles (gone : List String) (s s' : Scope) : Prop where
  roots : ∀ name, Option.Rel (Value.Settles gone) (s.get? name) (s'.get? name)
  computed : ∀ path, path ∈ s.computed ↔ path ∈ s'.computed

/-- The second scope is the first with unknown parts of values replaced by other values. -/
def Scope.Refines (s s' : Scope) : Prop := s.Settles [] s'

theorem Scope.Refines.settles {s s' : Scope} (h : s.Refines s') (gone : List String) :
    s.Settles gone s' :=
  ⟨fun name => rel_imp (h.roots name) fun v w hvw =>
    Value.Settles.mono (List.nil_subset gone) v w hvw, h.computed⟩

namespace Context

/-- Scopes that settle, and the same locals with values that settle. -/
structure Settles (gone : List String) (c c' : Context) : Prop where
  scope : c.scope.Settles gone c'.scope
  locals : ∀ name, Option.Rel (Value.Settles gone) (c.locals.get? name) (c'.locals.get? name)

/-- The second context is the first with unknown parts of values replaced by other values. -/
def Refines (c c' : Context) : Prop := c.Settles [] c'

variable {gone : List String} {c c' : Context}

theorem Settles.root? (h : c.Settles gone c') (name : String) :
    Option.Rel (Value.Settles gone) (c.root? name) (c'.root? name) := by
  rw [Context.root?, Context.root?]
  rcases rel_cases (h.locals name) with ⟨hl, hl'⟩ | ⟨v, w, hl, hl', hvw⟩ <;> simp only [hl, hl']
  · exact h.scope.roots name
  · exact .some hvw

theorem Settles.lookup (h : c.Settles gone c') (r : Reference) :
    (c.lookup r).Settles (c'.lookup r) := by
  rw [Context.lookup, Context.lookup]
  rcases rel_cases (h.root? r.root) with ⟨hr, hr'⟩ | ⟨v, w, hr, hr', hvw⟩ <;> simp only [hr, hr']
  · exact .refl _
  · exact hvw.follow (Scope.isComputed_congr h.scope.computed) _ _

/-- In a context that settles another one a result stays unless it is unknown. -/
theorem Settles.evaluate (h : c.Settles gone c') (e : Expr) :
    c.evaluate e = .ok .unknown ∨ SameResult (c.evaluate e) (c'.evaluate e) :=
  evaluate_of_settles fun r _ => h.lookup r

/-- In a refinement every known value of an expression stays, and so does every missing variable and
every failure. -/
theorem evaluate_of_refines (h : c.Refines c') (e : Expr) :
    (∀ v, c.evaluate e = .ok v → v ≠ .unknown →
      v.isWhollyKnown = true ∧ c'.evaluate e = .ok v) ∧
    (∀ name, c.evaluate e = .error (.undefinedVariable name) →
      c'.evaluate e = .error (.undefinedVariable name)) ∧
    ∀ f, c.evaluate e = .error (.expression f) → ∃ g, c'.evaluate e = .error (.expression g) := by
  have hs : ∀ x, c.evaluate e = x → x ≠ .ok .unknown → SameResult (c.evaluate e) (c'.evaluate e) :=
    fun x hx hu => (Settles.evaluate h e).resolve_left fun hx' => hu (hx.symm.trans hx')
  refine ⟨fun v hv hvu => ⟨isWhollyKnown_of_evaluate hv hvu, ?_⟩, fun name hn => ?_, fun f hf => ?_⟩
  · exact (hs _ hv (by simpa using hvu)).eq_ok hv
  · exact (hs _ hn (by simp)).eq_undefined hn
  · exact (hs _ hf (by simp)).exists_failure hf

/-- Once `var.pending` is known, `var.region`, the missing `each` and the failing `var.region.name`
stay. -/
theorem evaluate_of_refines_pending :
    let c : Context :=
      ⟨⟨[("var", .object [("region", .string "us"), ("pending", .unknown)])], []⟩, []⟩
    let c' : Context :=
      ⟨⟨[("var", .object [("region", .string "us"), ("pending", .list [.null])])], []⟩, []⟩
    c.Refines c' ∧
      c'.evaluate (.traversal (.variable "var") [.field "region"]) = .ok (.string "us") ∧
      c'.evaluate (.traversal (.variable "each") [.field "key"]) =
        .error (.undefinedVariable "each") ∧
      ∃ g, c'.evaluate (.traversal (.variable "var") [.field "region", .field "name"]) =
        .error (.expression g) := by
  intro c c'
  have h : c.Refines c' := by
    refine ⟨⟨fun name => ?_, fun path => Iff.rfl⟩, fun name => .none⟩
    by_cases hn : name = "var"
    · rw [hn]
      exact .some (Value.settles_object.2 ⟨_, rfl, by simp [Value.SettlesEntries, Value.Settles]⟩)
    · simp [c, c', Scope.get?, Entries.get?_cons, Ne.symm hn]
  exact ⟨h, ((evaluate_of_refines h _).1 _ rfl (by simp)).2, (evaluate_of_refines h _).2.1 _ rfl,
    (evaluate_of_refines h _).2.2 _ rfl⟩

end Context
end Preflight

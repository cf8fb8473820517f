import Preflight.Proofs.Settling

/-!
# Passes may stop early

The passes over a module end with the first one that changes nothing, where scopes are compared
whatever the order of entries in objects. The comparison cannot miss a change:

* Values that an entry has after two runs are compatible: where both are known they are the same
  (`Apart.compatible`). So two of them are the same if they are equal (`value_eq_of_equal`).
* If a pass changes nothing that the comparison sees, it changes nothing at all (`run_eq_of_same`).
* `Module.settle_consistent`: one pass more than the longest chain of dependent entries is enough.
* `Module.settle_settled`: whatever the chains are, if the last pass changed nothing then one more pass
  changes nothing, and every entry holds what it evaluates to.
-/

namespace Preflight

/-! ### Equality of values -/

namespace Value

theorem allKnown_iff {vs : List Value} :
    allKnown vs = true ↔ ∀ v ∈ vs, v.isWhollyKnown = true := by
  induction vs with
  | nil => simp [allKnown]
  | cons v vs ih => simp [allKnown, ih]

theorem allEntriesKnown_iff {es : List (String × Value)} :
    allEntriesKnown es = true ↔ ∀ e ∈ es, e.2.isWhollyKnown = true := by
  induction es with
  | nil => simp [allEntriesKnown]
  | cons e es ih => simp [allEntriesKnown, ih]

theorem entriesWithin_iff {es fs : List (String × Value)} :
    entriesWithin es fs = true ↔
      ∀ e ∈ es, ∃ w, Entries.get? fs e.1 = some w ∧ e.2.equal w = true := by
  induction es with
  | nil => simp [entriesWithin]
  | cons e es ih =>
    rw [entriesWithin, Bool.and_eq_true, ih, List.forall_mem_cons]
    cases Entries.get? fs e.1 <;> simp

theorem equal_unknown_left {v : Value} (h : Value.unknown.equal v = true) : v = .unknown := by
  cases v <;> simp [equal] at h ⊢

theorem equal_unknown_right {v : Value} (h : v.equal .unknown = true) : v = .unknown := by
  cases v <;> simp [equal] at h ⊢

theorem entriesWithin_of_equal {es : List (String × Value)} {w : Value}
    (h : (Value.object es).equal w = true) : ∃ fs, w = .object fs ∧ entriesWithin es fs = true := by
  cases w with
  | object fs =>
    rw [equal, Bool.and_eq_true] at h
    exact ⟨fs, rfl, h.2⟩
  | _ => simp [equal] at h

/-- Equal values have equal values at the same paths. -/
theorem exists_equal_of_getPath? {p : List String} {v w x : Value} (h : v.equal w = true)
    (hx : v.getPath? p = some x) : ∃ y, w.getPath? p = some y ∧ x.equal y = true := by
  induction p generalizing v w with
  | nil =>
    rw [getPath?_nil] at hx
    cases hx
    exact ⟨w, getPath?_nil w, h⟩
  | cons name p ih =>
    obtain ⟨es, rfl⟩ := exists_object_of_getPath? (by simp) hx
    obtain ⟨fs, rfl, hw⟩ := entriesWithin_of_equal h
    rw [getPath?_cons, entries] at hx
    obtain ⟨u, hu, hx⟩ := Option.bind_eq_some_iff.1 hx
    obtain ⟨y, hy, he⟩ := entriesWithin_iff.1 hw _ (Entries.mem_of_get? hu)
    obtain ⟨z, hz, hxz⟩ := ih he hx
    refine ⟨z, ?_, hxz⟩
    rw [getPath?_cons, entries, hy, Option.bind_some, hz]

/-- Two values that are the same unless one of them is unknown. -/
def Compatible (v w : Value) : Prop := v ≠ .unknown → w ≠ .unknown → v = w

namespace Compatible

variable {v w : Value}

theorem eq_of_equal (h : Compatible v w) (he : v.equal w = true) : v = w := by
  by_cases hv : v = .unknown
  · subst hv
    exact (equal_unknown_left he).symm
  by_cases hw : w = .unknown
  · subst hw
    exact equal_unknown_right he
  · exact h hv hw

theorem ne_unknown_of_getPath? {p : List String} {x : Value} (hx : v.getPath? p = some x)
    (hk : x.isWhollyKnown = true) : v ≠ .unknown := by
  rintro rfl
  cases p with
  | nil =>
    cases hx
    cases hk
  | cons name p => cases hx

/-- What compatible values hold at a path is the same where it is known. -/
theorem eq_of_getPath? (h : Compatible v w) {p : List String} {x y : Value}
    (hx : v.getPath? p = some x) (hy : w.getPath? p = some y) (hxk : x.isWhollyKnown = true)
    (hyk : y.isWhollyKnown = true) : x = y := by
  rw [h (ne_unknown_of_getPath? hx hxk) (ne_unknown_of_getPath? hy hyk), hy] at hx
  exact (Option.some.inj hx).symm

end Compatible
end Value

/-- Scopes that compare as the same hold equal values. -/
theorem Scope.exists_equal_of_same {s t : Scope} (h : t.same s = true) {p : List String} {v : Value}
    (hv : t.getPath? p = some v) : ∃ w, s.getPath? p = some w ∧ v.equal w = true := by
  cases p with
  | nil => cases hv
  | cons root p =>
    have hr : ∀ s : Scope, s.getPath? (root :: p) = (Value.object s.roots).getPath? (root :: p) := by
      intro s
      rw [Value.getPath?_cons]
      rfl
    rw [same, Bool.and_eq_true] at h
    rw [hr] at hv ⊢
    exact Value.exists_equal_of_getPath? h.1 hv

/-- What a reference finds with the same locals is the same, or it stands in the scopes. -/
theorem Context.eq_or_getPath?_of_lookup {s t : Scope} {locals : Entries Value} {r : Reference}
    {v w : Value} (hv : (Context.mk s locals).lookup r = .found v)
    (hw : (Context.mk t locals).lookup r = .found w) :
    v = w ∨ s.getPath? r.path = some v ∧ t.getPath? r.path = some w := by
  simp only [lookup, root?] at hv hw
  cases hl : locals.get? r.root with
  | some u =>
    simp only [hl] at hv hw
    have hx := s.getPath?_of_follow hv
    rw [t.getPath?_of_follow hw] at hx
    exact Or.inl (Option.some.inj hx).symm
  | none =>
    simp only [hl] at hv hw
    cases hs : s.get? r.root with
    | none => simp [hs] at hv
    | some x =>
      cases ht : t.get? r.root with
      | none => simp [ht] at hw
      | some y =>
        simp only [hs, ht] at hv hw
        rw [Reference.path, Scope.getPath?, Scope.getPath?, hs, ht]
        exact Or.inr ⟨s.getPath?_of_follow hv, t.getPath?_of_follow hw⟩

/-! ### Values of entries -/

namespace Entry

/-- The values of an assignment of an entry in two scopes are compatible. -/
def CompatibleAt (s t : Scope) (e : Entry) (a : Assignment) : Prop :=
  Value.Compatible ((e.declaration.context s).value a.expression)
    ((e.declaration.context t).value a.expression)

/-- What the values of an entry hold at a path is the same where it is known. -/
theorem eq_of_getPath?_value {e : Entry} {s t : Scope}
    (h : ∀ a ∈ e.assignments, CompatibleAt s t e a) {p : List String} {v w : Value}
    (hv : (e.value s).getPath? p = some v) (hw : (e.value t).getPath? p = some w)
    (hvk : v.isWhollyKnown = true) (hwk : w.isWhollyKnown = true) : v = w := by
  cases e with
  | single d a => exact (h a (List.mem_singleton_self a)).eq_of_getPath? hv hw hvk hwk
  | block d =>
    simp only [value, Declaration.referenceValue] at hv hw
    by_cases hm : d.isMultiple = true
    · rw [if_pos hm] at hv
      exact absurd rfl (Value.Compatible.ne_unknown_of_getPath? hv hvk)
    rw [if_neg hm] at hv hw
    cases p with
    | nil =>
      rw [Value.getPath?_nil] at hv hw
      obtain rfl := Option.some.inj hv
      obtain rfl := Option.some.inj hw
      rw [Value.isWhollyKnown, Value.allEntriesKnown_iff, List.forall_mem_map] at hvk hwk
      rw [List.map_congr_left]
      intro a ha
      have hv := Value.Compatible.ne_unknown_of_getPath? (Value.getPath?_nil _) (hvk a ha)
      have hw := Value.Compatible.ne_unknown_of_getPath? (Value.getPath?_nil _) (hwk a ha)
      exact congrArg (Prod.mk a.name) (h a ha hv hw)
    | cons name p =>
      rw [Value.getPath?_cons, Value.entries, Entries.get?_map_pair] at hv hw
      cases ha : d.assignments.find? fun a => a.name = name with
      | none => simp [ha] at hv
      | some a =>
        rw [ha, Option.map_some, Option.bind_some] at hv hw
        exact (h a (List.mem_of_find?_eq_some ha)).eq_of_getPath? hv hw hvk hwk

/-- Equal values of an entry are the same. -/
theorem value_eq_of_equal {e : Entry} (hn : (e.assignments.map Assignment.name).Nodup) {s t : Scope}
    (h : ∀ a ∈ e.assignments, CompatibleAt s t e a)
    (he : (e.value s).equal (e.value t) = true) : e.value s = e.value t := by
  cases e with
  | single d a => exact (h a (List.mem_singleton_self a)).eq_of_equal he
  | block d =>
    simp only [value, Declaration.referenceValue] at he ⊢
    by_cases hm : d.isMultiple = true
    · rw [if_pos hm, if_pos hm]
    rw [if_neg hm, if_neg hm] at he
    rw [if_neg hm, if_neg hm]
    obtain ⟨fs, hfs, hw⟩ := Value.entriesWithin_of_equal he
    cases hfs
    rw [Value.entriesWithin_iff, List.forall_mem_map] at hw
    rw [List.map_congr_left]
    intro a ha
    have hkeys : (Entries.keys (d.assignments.map fun a =>
        (a.name, (d.context t).value a.expression))).Nodup := by
      rw [Entries.keys, List.map_map]
      exact hn
    -- No name is repeated, so the comparison finds the value of `a` itself under its name.
    obtain ⟨w, hg, hav⟩ := hw a ha
    rw [(Entries.get?_eq_some_iff hkeys).2 (List.mem_map.2 ⟨a, ha, rfl⟩)] at hg
    cases hg
    exact congrArg (Prod.mk a.name) ((h a ha).eq_of_equal hav)

section Reached

variable {es : List Entry} {base s : Scope} {r : Nat}

/-- The values that an entry has after two runs are compatible. -/
theorem Apart.compatible (hes : Apart es) (hb : ∀ e ∈ es, base.getPath? e.address = none)
    {l m : List Entry} (hl : ∀ e ∈ l, e ∈ es) (hm : ∀ e ∈ m, e ∈ es) {e : Entry} (he : e ∈ es)
    {a : Assignment} (ha : a ∈ e.assignments) : CompatibleAt (run base l) (run base m) e a := by
  induction hn : l.length + m.length using Nat.strong_induction_on generalizing l m e a with
  | _ n ih =>
    intro hv hw
    refine Context.evaluate_compatible (fun f hf v w hfv hfw hvk hwk => ?_)
      (Context.evaluate_of_value hv) (Context.evaluate_of_value hw) hv hw
    obtain heq | ⟨hfv, hfw⟩ := Context.eq_or_getPath?_of_lookup hfv hfw
    · exact heq
    have hp := mem_paths ha hf
    by_cases hin : ∃ d ∈ es, d.address <+: f.path
    · -- The reference goes into an entry, written at an earlier turn of each run.
      obtain ⟨d, hd, q, hq⟩ := hin
      rw [← hq, Scope.getPath?_append _ (hes.address_ne_nil hd)] at hfv hfw
      obtain ⟨x, hx, hxv⟩ := Option.bind_eq_some_iff.1 hfv
      obtain ⟨y, hy, hyw⟩ := Option.bind_eq_some_iff.1 hfw
      obtain ⟨l₁, l₂, rfl, rfl⟩ := hes.exists_origin hb hl hd hx
      obtain ⟨m₁, m₂, rfl, rfl⟩ := hes.exists_origin hb hm hd hy
      have hshort : l₁.length + m₁.length < n := by
        simp only [List.length_append, List.length_cons] at hn
        omega
      have hl₁ : ∀ c ∈ l₁, c ∈ es := fun c hc => hl c (List.mem_append_left _ hc)
      have hm₁ : ∀ c ∈ m₁, c ∈ es := fun c hc => hm c (List.mem_append_left _ hc)
      exact eq_of_getPath?_value (fun b hbm => ih _ hshort hl₁ hm₁ hd hbm rfl) hxv hyw hvk hwk
    · have hdiv : ∀ d ∈ es, Diverge d.address f.path := fun d hd =>
        ⟨fun hdp => hin ⟨d, hd, hdp⟩,
          fun hpd => hin ⟨d, hd, hes.paths e he _ hp d hd hpd ▸ List.prefix_refl _⟩⟩
      rw [(Reached.base.run hl).getPath? hdiv] at hfv
      rw [(Reached.base.run hm).getPath? hdiv, hfv] at hfw
      exact Option.some.inj hfw

variable (hes : Apart es) (hb : ∀ e ∈ es, base.getPath? e.address = none) (hs : Reached es base s)
  (hsame : (run s es).same s = true)
include hes hb hs hsame

/-- If a pass changes nothing that the comparison sees, it changes no entry. -/
theorem sameAt_of_same {e : Entry} (he : e ∈ es) : SameAt s (run s es) e := by
  obtain ⟨l, hl, rfl⟩ := hs.exists_run
  have hall : ∀ d ∈ l ++ es, d ∈ es := fun d hd => (List.mem_append.1 hd).elim (hl d) id
  obtain ⟨v, hv⟩ := hes.complete (run base l) e he
  obtain ⟨w, hw, heq⟩ := Scope.exists_equal_of_same hsame hv
  rw [← run_append] at hv
  obtain ⟨m₁, m₂, hm, rfl⟩ := hes.exists_origin hb hall he hv
  obtain ⟨l₁, l₂, rfl, rfl⟩ := hes.exists_origin hb hl he hw
  have hm₁ : ∀ c ∈ m₁, c ∈ es := fun c hc => hall c (hm ▸ List.mem_append_left _ hc)
  have hl₁ : ∀ c ∈ l₁, c ∈ es := fun c hc => hl c (List.mem_append_left _ hc)
  have hc : ∀ a ∈ e.assignments, CompatibleAt (run base m₁) (run base l₁) e a :=
    fun a ha => hes.compatible hb hm₁ hl₁ he ha
  rw [SameAt, hw, ← run_append, hv, value_eq_of_equal (hes.names e he) hc heq]

/-- If a pass changes nothing that the comparison sees, it changes nothing at all, turn by turn, and
every entry holds what it evaluates to. -/
theorem run_eq_of_same : run s es = s ∧ ∀ e ∈ es, s.getPath? e.address = some (e.value s) := by
  have hturn : ∀ l m, es = l ++ m → run s l = s := by
    intro l
    induction l using List.reverseRecOn with
    | nil => exact fun _ _ => rfl
    | append_singleton l e ih =>
      intro m hl
      have hsl : run s l = s := ih (e :: m) (by simpa using hl)
      have he : e ∈ es := hl ▸ by simp
      have hm : ∀ d ∈ m, d ∈ es := fun d hd => hl ▸ List.mem_append_right _ hd
      have hem : e ∉ m := fun hem =>
        (List.nodup_append.1 (hl ▸ hes.nodup)).2.2 e (by simp) e hem rfl
      -- What `e` writes at its turn stays to the end of the pass, so it was there before.
      have hend : (run s es).getPath? e.address = some (e.value s) := by
        rw [hl, run_append, run_append, hsl, run_cons, run_nil,
          hes.getPath?_run_of_not_mem hm he hem, hes.getPath?_write_self he]
      have hhere : s.getPath? e.address = some (e.value s) :=
        (sameAt_of_same hes hb hs hsame he).trans hend
      rw [run_append, hsl, run_cons, run_nil, write, Scope.set_of_getPath? hhere]
  have hall : run s es = s := hturn es [] (List.append_nil es).symm
  refine ⟨hall, fun e he => ?_⟩
  obtain ⟨l₁, l₂, hl, hv⟩ := hes.exists_turn (fun _ h => h) hes.nodup he s
  rwa [hall, hturn l₁ (e :: l₂) hl] at hv

/-- If a pass changes nothing that the comparison sees, its result is consistent. -/
theorem consistent_of_same : Consistent es r (run s es) := by
  obtain ⟨hrun, hall⟩ := run_eq_of_same hes hb hs hsame
  rw [hrun]
  exact fun e he _ => hall e he

end Reached

end Entry

/-! ### Passes over a module -/

namespace Module

open Entry

variable {ds : List Declaration} {base s : Scope} {r : Nat}

theorem pass_eq_run (ds : List Declaration) (s : Scope) : pass ds s = run s (entries ds) :=
  pass_eq ds s

/-- The scope at the end comes out of a pass. -/
theorem exists_pass_of_settle (ds : List Declaration) (n : Nat) (s : Scope) :
    ∃ t, (settle ds (n + 1) s).1 = pass ds t := by
  induction n generalizing s with
  | zero =>
    rw [settle]
    by_cases hsame : (pass ds s).same s = true
    · exact ⟨s, by simp only [hsame, if_true]⟩
    · exact ⟨s, by simp only [hsame]; rfl⟩
  | succ n ih =>
    rw [settle]
    by_cases hsame : (pass ds s).same s = true
    · exact ⟨s, by simp only [hsame, if_true]⟩
    · obtain ⟨t, ht⟩ := ih (pass ds s)
      exact ⟨t, by simp only [hsame]; exact ht⟩

/-- A scope that a pass keeps is the one at the end, and the passes settle. -/
theorem settle_of_pass {t : Scope} (hs : pass ds s = t) (ht : pass ds t = t)
    (hsame : t.same t = true) (n : Nat) : settle ds (n + 2) s = (t, true) := by
  rw [settle, hs]
  by_cases h : t.same s = true
  · simp only [h, if_true]
  · simp only [h]
    rw [settle, ht]
    simp only [hsame, if_true]
    rfl

/-- If the last pass changed nothing then another one changes nothing, and the entries hold what they
evaluate to. -/
theorem settle_settled (hes : Apart (entries ds))
    (hb : ∀ e ∈ entries ds, base.getPath? e.address = none) {n : Nat}
    (hs : Reached (entries ds) base s) (h : (settle ds n s).2 = true) :
    let t := (settle ds n s).1
    pass ds t = t ∧ ∀ e ∈ entries ds, t.getPath? e.address = some (e.value t) := by
  induction n generalizing s with
  | zero => cases h
  | succ n ih =>
    rw [settle, pass_eq_run] at h ⊢
    by_cases hsame : (run s (entries ds)).same s = true
    · obtain ⟨hrun, hall⟩ := run_eq_of_same hes hb hs hsame
      simp only [hsame, if_true]
      rw [hrun]
      exact ⟨(pass_eq_run ds s).trans hrun, hall⟩
    · simp only [hsame] at h ⊢
      exact ih (hs.run fun _ h => h) h

section Settle

variable (hes : Orderly (entries ds)) (hb : ∀ e ∈ entries ds, base.getPath? e.address = none)
include hes hb

theorem settle_of_consistent {n j : Nat} (hn : j + n = r) (hs : Reached (entries ds) base s)
    (hcs : Complete (entries ds) s) (hc : Consistent (entries ds) j s) :
    let t := (settle ds n s).1
    Reached (entries ds) base t ∧ Complete (entries ds) t ∧ Consistent (entries ds) r t := by
  induction n generalizing j s with
  | zero => exact ⟨hs, hcs, hn ▸ hc⟩
  | succ n ih =>
    rw [settle, pass_eq_run]
    have hs' : Reached (entries ds) base (run s (entries ds)) := hs.run fun _ h => h
    by_cases hsame : (run s (entries ds)).same s = true
    · simp only [hsame, if_true]
      -- Passes end early: nothing has changed at any rank.
      exact ⟨hs', hes.complete s, consistent_of_same hes.toApart hb hs hsame⟩
    · simp only [hsame]
      exact ih (by omega) hs' (hes.complete s) (hc.pass hes hcs hs)

/-- One pass more than the longest chain of dependent entries makes a scope complete and
consistent. -/
theorem settle_consistent :
    let t := (settle ds (r + 1) base).1
    Reached (entries ds) base t ∧ Complete (entries ds) t ∧ Consistent (entries ds) r t := by
  rw [settle, pass_eq_run]
  have hb' : Reached (entries ds) base (run base (entries ds)) := Reached.base.run fun _ h => h
  by_cases hsame : (run base (entries ds)).same base = true
  · simp only [hsame, if_true]
    exact ⟨hb', hes.complete base, consistent_of_same hes.toApart hb .base hsame⟩
  · simp only [hsame]
    refine settle_of_consistent hes hb (Nat.zero_add r) hb' (hes.complete base) ?_
    exact fun e _ her => her.elim

end Settle

end Module

/-- The scope of a built module comes out of a pass. -/
theorem Builder.exists_pass (b : Builder) : ∃ t, b.build.scope = Module.pass b.declarations t :=
  Module.exists_pass_of_settle b.declarations 15 (Module.initialScope b.assigned b.declarations)

/-- A module whose first pass gives a scope that a second one keeps has this scope and settled. -/
theorem Builder.build_of_pass {b : Builder} {t : Scope}
    (hs : Module.pass b.declarations (Module.initialScope b.assigned b.declarations) = t)
    (ht : Module.pass b.declarations t = t) (hsame : t.same t = true) :
    b.build.scope = t ∧ b.build.settled = true := by
  have h : Module.settle b.declarations Module.maxPasses
      (Module.initialScope b.assigned b.declarations) = (t, true) :=
    Module.settle_of_pass hs ht hsame 14
  rw [build, h]
  exact ⟨rfl, rfl⟩

/-- Such a module as a whole. -/
theorem Builder.build_eq_of_pass {b : Builder} {t : Scope}
    (hs : Module.pass b.declarations (Module.initialScope b.assigned b.declarations) = t)
    (ht : Module.pass b.declarations t = t) (hsame : t.same t = true) :
    b.build = ⟨b.sources, b.declarations.map (Declaration.materialize t), t, true⟩ := by
  have hb : b.build = ⟨b.sources, b.declarations.map (Declaration.materialize b.build.scope),
    b.build.scope, b.build.settled⟩ := rfl
  obtain ⟨hscope, hsettled⟩ := build_of_pass hs ht hsame
  rw [hb, hscope, hsettled]

end Preflight

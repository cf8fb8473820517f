import Preflight.Proofs.Entry

/-!
# Passes settle the entries of a scope

Entries are evaluated and written one after another, pass after pass. Here `es` is a list of entries
whose addresses lie apart, and a scope is reached if it comes from a base by writing entries in any
order.

* In complete scopes that are alike, an entry has the same value as soon as the entries that it
  depends on have the same values (`Alike.value_eq`).
* A scope is consistent up to a rank if the entries of that rank hold what they evaluate to. A pass
  over a complete scope makes it consistent up to one rank more (`Consistent.pass`).
* Complete scopes that are alike and consistent agree (`Consistent.agree`).
-/

namespace Preflight

namespace Entry

/-- Evaluates and writes entries in turn. -/
def run (s : Scope) (l : List Entry) : Scope := l.foldl write s

@[simp] theorem run_nil (s : Scope) : run s [] = s := rfl

@[simp] theorem run_cons (s : Scope) (e : Entry) (l : List Entry) :
    run s (e :: l) = run (e.write s) l := rfl

theorem run_append (s : Scope) (l m : List Entry) : run s (l ++ m) = run (run s l) m :=
  List.foldl_append

section Write

variable {es : List Entry} (hes : Apart es) {e d : Entry}
include hes

theorem Apart.address_ne_nil (he : e ∈ es) : e.address ≠ [] := (hes.rooted e he).symm.ne_nil

theorem Apart.getPath?_write_self (he : e ∈ es) (s : Scope) :
    (e.write s).getPath? e.address = some (e.value s) :=
  s.getPath?_set_self (hes.address_ne_nil he) _

theorem Apart.getPath?_write_of_ne (he : e ∈ es) (hd : d ∈ es) (h : e ≠ d) (s : Scope) :
    (e.write s).getPath? d.address = s.getPath? d.address :=
  s.getPath?_set_of_diverge ((hes.apart e he d hd).resolve_left h) _

theorem Apart.getPath?_run_of_not_mem {l : List Entry} (hl : ∀ e ∈ l, e ∈ es) (hd : d ∈ es)
    (hdl : d ∉ l) (s : Scope) : (run s l).getPath? d.address = s.getPath? d.address := by
  induction l generalizing s with
  | nil => rfl
  | cons e l ih =>
    have hne : e ≠ d := fun h => hdl (h ▸ List.mem_cons_self)
    rw [run_cons, ih (fun e he => hl e (List.mem_cons_of_mem _ he))
      fun h => hdl (List.mem_cons_of_mem _ h)]
    exact hes.getPath?_write_of_ne (hl e List.mem_cons_self) hd hne s

/-- After a run over distinct entries each of them holds what it evaluated to at its turn. -/
theorem Apart.exists_turn {l : List Entry} (hl : ∀ e ∈ l, e ∈ es) (hn : l.Nodup) (hd : d ∈ l)
    (s : Scope) : ∃ l₁ l₂, l = l₁ ++ d :: l₂ ∧
      (run s l).getPath? d.address = some (d.value (run s l₁)) := by
  obtain ⟨l₁, l₂, rfl⟩ := List.append_of_mem hd
  refine ⟨l₁, l₂, rfl, ?_⟩
  have hd₂ : d ∉ l₂ := (List.nodup_cons.1 (List.nodup_append.1 hn).2.1).1
  rw [run_append, run_cons, hes.getPath?_run_of_not_mem _ (hl d hd) hd₂]
  · exact hes.getPath?_write_self (hl d hd) _
  · exact fun e he => hl e (List.mem_append_right _ (List.mem_cons_of_mem _ he))

end Write

/-- Every entry holds a value. -/
def Complete (es : List Entry) (s : Scope) : Prop := ∀ e ∈ es, ∃ v, s.getPath? e.address = some v

/-- Scopes that come from a base by writing entries. -/
inductive Reached (es : List Entry) (base : Scope) : Scope → Prop
  | base : Reached es base base
  | write {s : Scope} {e : Entry} : Reached es base s → e ∈ es → Reached es base (e.write s)

section Reached

variable {es : List Entry} {base s t : Scope}

theorem Reached.run {l : List Entry} (h : Reached es base s) (hl : ∀ e ∈ l, e ∈ es) :
    Reached es base (run s l) := by
  induction l generalizing s with
  | nil => exact h
  | cons e l ih =>
    exact ih (h.write (hl e List.mem_cons_self)) fun d hd => hl d (List.mem_cons_of_mem _ hd)

theorem Reached.mono {fs : List Entry} (h : Reached es base s) (hf : ∀ e ∈ es, e ∈ fs) :
    Reached fs base s := by
  induction h with
  | base => exact .base
  | write _ he ih => exact ih.write (hf _ he)

theorem Reached.computed (h : Reached es base s) : s.computed = base.computed := by
  induction h with
  | base => rfl
  | write _ _ ih => rw [Entry.write, Scope.computed_set, ih]

/-- Away from the entries a reached scope is its base. -/
theorem Reached.getPath? (h : Reached es base s) {p : List String}
    (hp : ∀ e ∈ es, Diverge e.address p) : s.getPath? p = base.getPath? p := by
  induction h with
  | base => rfl
  | write _ he ih => rw [Entry.write, Scope.getPath?_set_of_diverge _ (hp _ he), ih]

/-- A reached scope comes from a run over some entries. -/
theorem Reached.exists_run (h : Reached es base s) :
    ∃ l, (∀ e ∈ l, e ∈ es) ∧ s = Entry.run base l := by
  induction h with
  | base => exact ⟨[], by simp, rfl⟩
  | @write s e hs he ih =>
    obtain ⟨l, hl, rfl⟩ := ih
    refine ⟨l ++ [e], fun d hd => ?_, by rw [run_append]; rfl⟩
    rcases List.mem_append.1 hd with hd | hd
    · exact hl d hd
    · rwa [List.mem_singleton.1 hd]

/-- What a run leaves for an entry is what the entry evaluated to at one of its turns. -/
theorem Apart.exists_origin (hes : Apart es) (hb : ∀ e ∈ es, base.getPath? e.address = none)
    {l : List Entry} (hl : ∀ e ∈ l, e ∈ es) {e : Entry} (he : e ∈ es) {v : Value}
    (hv : (Entry.run base l).getPath? e.address = some v) :
    ∃ l₁ l₂, l = l₁ ++ e :: l₂ ∧ v = e.value (Entry.run base l₁) := by
  induction l using List.reverseRecOn with
  | nil =>
    rw [run_nil, hb e he] at hv
    cases hv
  | append_singleton l d ih =>
    have hd : d ∈ es := hl d (by simp)
    rw [run_append, run_cons, run_nil] at hv
    by_cases hde : d = e
    · subst hde
      rw [hes.getPath?_write_self hd] at hv
      exact ⟨l, [], rfl, (Option.some.inj hv).symm⟩
    · rw [hes.getPath?_write_of_ne hd he hde] at hv
      obtain ⟨l₁, l₂, rfl, hvalue⟩ := ih (fun c hc => hl c (List.mem_append_left _ hc)) hv
      exact ⟨l₁, l₂ ++ [d], by simp, hvalue⟩

theorem Complete.write (hes : Apart es) (h : Complete es s) {e : Entry} (he : e ∈ es) :
    Complete es (e.write s) := by
  intro d hd
  by_cases hed : e = d
  · subst hed
    exact ⟨_, hes.getPath?_write_self he s⟩
  · rw [hes.getPath?_write_of_ne he hd hed]
    exact h d hd

theorem Complete.run (hes : Apart es) (h : Complete es s) {l : List Entry}
    (hl : ∀ e ∈ l, e ∈ es) : Complete es (Entry.run s l) := by
  induction l generalizing s with
  | nil => exact h
  | cons e l ih =>
    exact ih (h.write hes (hl e List.mem_cons_self)) fun d hd => hl d (List.mem_cons_of_mem _ hd)

/-- A pass over all entries completes every scope. -/
theorem Apart.complete (hes : Apart es) (s : Scope) : Complete es (Entry.run s es) := by
  intro e he
  obtain ⟨l₁, l₂, -, h⟩ := hes.exists_turn (fun _ h => h) hes.nodup he s
  exact ⟨_, h⟩

end Reached

/-! ### Scopes that are alike -/

/-- Scopes that agree away from the entries, but for the order of the variables. -/
structure Alike (es : List Entry) (s t : Scope) : Prop where
  computed : ∀ path, path ∈ s.computed ↔ path ∈ t.computed
  outside : ∀ p, (∀ e ∈ es, Diverge e.address p) → s.getPath? p = t.getPath? p ∨
    p = ["var"] ∧ (∃ vs, s.getPath? p = some (.object vs)) ∧ ∃ ws, t.getPath? p = some (.object ws)

/-- The two scopes hold the same for an entry. -/
def SameAt (s t : Scope) (e : Entry) : Prop := s.getPath? e.address = t.getPath? e.address

section Alike

variable {es : List Entry} {base base' s t : Scope}

theorem Alike.refl (es : List Entry) (s : Scope) : Alike es s s :=
  ⟨fun _ => Iff.rfl, fun _ _ => Or.inl rfl⟩

/-- What is reached from bases that are alike is alike. -/
theorem Reached.alike (hb : Alike es base base') (hs : Reached es base s)
    (ht : Reached es base' t) : Alike es s t := by
  refine ⟨fun path => ?_, fun p hp => ?_⟩
  · rw [hs.computed, ht.computed]
    exact hb.computed path
  · rw [hs.getPath? hp, ht.getPath? hp]
    exact hb.outside p hp

theorem SameAt.below {e : Entry} (h : SameAt s t e) (he : e.address ≠ []) {p : List String}
    (hp : e.address <+: p) : s.getPath? p = t.getPath? p := by
  obtain ⟨r, rfl⟩ := hp
  rw [Scope.getPath?_append s he, Scope.getPath?_append t he, h]

/-- A reference of an entry finds the same in complete scopes that hold the same for the entries it
leads to. -/
theorem Alike.lookup (hes : Orderly es) (h : Alike es s t) (hs : Complete es s)
    (ht : Complete es t) (locals : Entries Value) {r : Reference} (hvar : r.path ≠ ["var"])
    (hp : ∀ d ∈ es, r.path <+: d.address → r.path = d.address)
    (hd : ∀ d ∈ es, d.address <+: r.path → SameAt s t d) :
    (Context.mk s locals).lookup r = (Context.mk t locals).lookup r := by
  apply Context.lookup_congr_of_getPath? locals (Scope.isComputed_congr h.computed)
  · intro p q hpq hpn hqn
    by_cases hin : ∃ d ∈ es, d.address <+: p
    · obtain ⟨d, hdm, hdp⟩ := hin
      have hdr : d.address <+: r.path := hdp.trans (hpq ▸ List.prefix_append p q)
      -- The way leads into an entry that holds the same in both scopes.
      exact Or.inl ((hd d hdm hdr).below (hes.address_ne_nil hdm) hdp)
    by_cases hout : ∃ d ∈ es, p <+: d.address
    · obtain ⟨d, hdm, hdp⟩ := hout
      -- The way is above an entry, and complete scopes hold objects there.
      have hne : p ≠ d.address := fun he => hin ⟨d, hdm, he ▸ List.prefix_refl p⟩
      obtain ⟨v, hv⟩ := hs d hdm
      obtain ⟨w, hw⟩ := ht d hdm
      exact Or.inr ⟨Scope.exists_object_above hpn hdp hne hv, Scope.exists_object_above hpn hdp hne hw⟩
    · rcases h.outside p fun e he => ⟨fun hep => hin ⟨e, he, hep⟩, fun hpe => hout ⟨e, he, hpe⟩⟩ with
        heq | ⟨-, hobj⟩
      · exact Or.inl heq
      · exact Or.inr hobj
  · by_cases hin : ∃ d ∈ es, d.address <+: r.path
    · obtain ⟨d, hdm, hdp⟩ := hin
      exact (hd d hdm hdp).below (hes.address_ne_nil hdm) hdp
    · have hdiv : ∀ e ∈ es, Diverge e.address r.path := fun e he =>
        ⟨fun hep => hin ⟨e, he, hep⟩, fun hpe => hin ⟨e, he, hp e he hpe ▸ List.prefix_refl _⟩⟩
      exact (h.outside _ hdiv).resolve_right fun hv => hvar hv.1

theorem mem_paths {e : Entry} {a : Assignment} (ha : a ∈ e.assignments) {r : Reference}
    (hr : r ∈ a.expression.references) : r.path ∈ e.paths :=
  List.mem_flatMap.2 ⟨a, ha, List.mem_map.2 ⟨r, hr, rfl⟩⟩

/-- In complete scopes that are alike an entry has the same value if the entries that it depends on
have. -/
theorem Alike.value_eq (hes : Orderly es) (h : Alike es s t) (hs : Complete es s)
    (ht : Complete es t) {e : Entry} (he : e ∈ es) (hd : ∀ d ∈ es, e.DependsOn d → SameAt s t d) :
    e.value s = e.value t :=
  value_congr fun _ ha => Context.value_congr fun _ hr =>
    have hm := mem_paths ha hr
    h.lookup hes hs ht _ (hes.noWhole e he _ hm) (hes.paths e he _ hm)
      fun d hdm hdp => hd d hdm ⟨_, hm, hdp⟩

end Alike

/-! ### Consistency -/

/-- The entries up to a rank hold what they evaluate to. -/
def Consistent (es : List Entry) (r : Nat) (s : Scope) : Prop :=
  ∀ e ∈ es, e.RankedBy es r → s.getPath? e.address = some (e.value s)

section Consistent

variable {es : List Entry} {base base' s t : Scope} {r : Nat}

/-- Complete scopes that are alike and consistent up to a rank agree up to that rank. -/
theorem Consistent.sameAt (hes : Orderly es) (h : Alike es s t) (hs : Complete es s)
    (ht : Complete es t) (hsr : Consistent es r s) (htr : Consistent es r t) {e : Entry}
    (he : e ∈ es) (her : e.RankedBy es r) : SameAt s t e := by
  induction r generalizing e with
  | zero => cases her
  | succ r ih =>
    have hsr' : Consistent es r s := fun d hd hdr => hsr d hd hdr.succ
    have htr' : Consistent es r t := fun d hd hdr => htr d hd hdr.succ
    rw [SameAt, hsr e he her, htr e he her, h.value_eq hes hs ht he]
    exact fun d hd hed => ih hsr' htr' hd (her d hd hed)

/-- Writing an entry keeps a scope consistent, and what it holds up to the rank. -/
theorem Consistent.write (hes : Orderly es) (hs : Complete es s) (hr : Reached es base s)
    (h : Consistent es r s) {e : Entry} (he : e ∈ es) :
    Consistent es r (e.write s) ∧ ∀ d ∈ es, d.RankedBy es r → SameAt s (e.write s) d := by
  have hsame : ∀ d ∈ es, d.RankedBy es r → SameAt s (e.write s) d := by
    intro d hd hdr
    by_cases hed : e = d
    · subst hed
      rw [SameAt, hes.getPath?_write_self he, h e he hdr]
    · exact (hes.getPath?_write_of_ne he hd hed s).symm
  refine ⟨fun d hd hdr => ?_, hsame⟩
  have halike : Alike es s (e.write s) := hr.alike (.refl es base) (hr.write he)
  have hv : d.value s = d.value (e.write s) := by
    apply halike.value_eq hes hs (hs.write hes.toApart he) hd
    intro c hc hdc
    cases r with
    | zero => cases hdr
    | succ r => exact hsame c hc (hdr c hc hdc).succ
  rw [← hsame d hd hdr, h d hd hdr, hv]

theorem Consistent.run (hes : Orderly es) (hs : Complete es s) (hr : Reached es base s)
    (h : Consistent es r s) {l : List Entry} (hl : ∀ e ∈ l, e ∈ es) :
    Consistent es r (Entry.run s l) ∧ ∀ d ∈ es, d.RankedBy es r → SameAt s (Entry.run s l) d := by
  induction l generalizing s with
  | nil => exact ⟨h, fun d _ _ => rfl⟩
  | cons e l ih =>
    have he := hl e List.mem_cons_self
    obtain ⟨hw, hsame⟩ := h.write hes hs hr he
    obtain ⟨hc, hsame'⟩ := ih (hs.write hes.toApart he) (hr.write he) hw
      fun d hd => hl d (List.mem_cons_of_mem _ hd)
    exact ⟨hc, fun d hd hdr => (hsame d hd hdr).trans (hsame' d hd hdr)⟩

/-- A pass over a complete scope makes it consistent up to one rank more. -/
theorem Consistent.pass (hes : Orderly es) (hs : Complete es s) (hr : Reached es base s)
    (h : Consistent es r s) : Consistent es (r + 1) (Entry.run s es) := by
  intro e he her
  obtain ⟨l₁, l₂, hl, hv⟩ := hes.exists_turn (fun _ h => h) hes.nodup he s
  have hl₁ : ∀ d ∈ l₁, d ∈ es := fun d hd => hl ▸ List.mem_append_left _ hd
  -- The entries that `e` depends on are of lower rank: they held at its turn what they hold in the end.
  have hturn := (h.run hes hs hr hl₁).2
  have hend := (h.run hes hs hr fun d (hd : d ∈ es) => hd).2
  have halike : Alike es (Entry.run s l₁) (Entry.run s es) :=
    (hr.run hl₁).alike (.refl es base) (hr.run fun d hd => hd)
  rw [hv, halike.value_eq hes (hs.run hes.toApart hl₁) (hs.run hes.toApart fun d hd => hd) he]
  intro d hd hed
  exact (hturn d hd (her d hd hed)).symm.trans (hend d hd (her d hd hed))

end Consistent

end Entry
end Preflight

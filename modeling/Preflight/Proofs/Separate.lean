import Mathlib.Data.List.Nodup
import Preflight.Proofs.DistinctNames
import Preflight.Proofs.Stopping

/-!
# Modules whose entries do not overlap

In a module whose locals, data sources and resources have distinct addresses (`Module.Separate`) the
entries of the scope lie apart. If the passes over such a module settle then one more pass changes
nothing (`Builder.pass_build`), and every entry holds what it evaluates to in the scope that they
leave (`Builder.build_consistent`).
-/

namespace Preflight

namespace Scope

@[simp] theorem roots_markComputed (s : Scope) (path : List String) :
    (s.markComputed path).roots = s.roots := by
  rw [markComputed]
  split <;> rfl

theorem mem_computed_markComputed (s : Scope) (path p : List String) :
    p ∈ (s.markComputed path).computed ↔ p ∈ s.computed ∨ p = path := by
  rw [markComputed]
  by_cases h : s.computed.contains path = true
  · rw [if_pos h]
    constructor
    · exact Or.inl
    · rintro (hp | rfl)
      · exact hp
      · simpa using h
  · rw [if_neg h]
    simp

theorem roots_foldl_markComputed (s : Scope) (paths : List (List String)) :
    (paths.foldl markComputed s).roots = s.roots := by
  induction paths generalizing s with
  | nil => rfl
  | cons path paths ih => rw [List.foldl_cons, ih, roots_markComputed]

theorem mem_computed_foldl_markComputed (s : Scope) (paths : List (List String))
    (p : List String) :
    p ∈ (paths.foldl markComputed s).computed ↔ p ∈ s.computed ∨ p ∈ paths := by
  induction paths generalizing s with
  | nil => simp
  | cons path paths ih =>
    rw [List.foldl_cons, ih, mem_computed_markComputed, List.mem_cons, or_assoc]

end Scope

namespace Module

/-! ### Addresses -/

/-- The addresses that entries have where no resource is of the type `var` or `data`. -/
inductive Address : List String → Prop
  | single (name : String) : Address ["local", name]
  | data (type name : String) : Address ["data", type, name]
  | resource {type : String} (name : String) (hv : type ≠ "var") (hl : type ≠ "local")
    (hd : type ≠ "data") : Address [type, name]

theorem Address.diverge {p q : List String} (hp : Address p) (hq : Address q) (h : p ≠ q) :
    Diverge p q := by
  cases hp <;> cases hq <;> grind [Diverge]

theorem Address.diverge_var {p : List String} (hp : Address p) : Diverge p ["var"] := by
  cases hp <;> grind [Diverge]

theorem Address.diverge_variable {p : List String} (hp : Address p) (name : String) :
    Diverge p ["var", name] := by
  cases hp <;> grind [Diverge]

/-- Declarations whose addresses are distinct and whose references reach no object that holds
several of them. -/
structure Separate (ds : List Declaration) : Prop where
  names : ∀ d ∈ ds, d.AssignsOnce
  addresses : ((entries ds).map Entry.address).Nodup
  types : ∀ d ∈ ds, d.heading.kind = "resource" → ∀ type name, d.heading.labels = [type, name] →
    type ≠ "var" ∧ type ≠ "data"
  paths : ∀ e ∈ entries ds, ∀ p ∈ e.paths, ∀ d ∈ entries ds, p <+: d.address → p = d.address

namespace Separate

variable {ds : List Declaration}

theorem address (h : Separate ds) {e : Entry} (he : e ∈ entries ds) : Address e.address := by
  obtain ⟨d, hd, he⟩ := List.mem_flatMap.1 he
  rcases Declaration.mem_entries he with ⟨a, rfl⟩ | ⟨rfl, hk, type, name, hl⟩
  · exact .single a.name
  · rw [Entry.address, hl]
    rcases hk with hk | hk
    · rw [if_pos hk]
      exact .data type name
    · obtain ⟨hv, hda⟩ := h.types d hd hk type name hl
      rw [if_neg (by simp [hk])]
      by_cases hlo : type = "local"
      · rw [hlo]
        exact .single name
      · exact .resource name hv hlo hda

theorem names_entry (h : Separate ds) {e : Entry} (he : e ∈ entries ds) :
    (e.assignments.map Assignment.name).Nodup := by
  obtain ⟨d, hd, he⟩ := List.mem_flatMap.1 he
  rcases Declaration.mem_entries he with ⟨a, rfl⟩ | ⟨rfl, -⟩
  · exact List.nodup_singleton _
  · exact h.names d hd

theorem apart (h : Separate ds) : Entry.Apart (entries ds) where
  nodup := h.addresses.of_map _
  apart e he d hd := by
    by_cases hed : e.address = d.address
    · exact Or.inl (List.inj_on_of_nodup_map h.addresses he hd hed)
    · exact Or.inr ((h.address he).diverge (h.address hd) hed)
  rooted e he := (h.address he).diverge_var
  names e he := h.names_entry he
  paths := h.paths

end Separate

/-! ### The scope before the first pass -/

theorem get?_initialScope (assigned : Entries Value) (ds : List Declaration) (name : String) :
    (initialScope assigned ds).get? name =
      if name = "var" then some (.object (variableValues assigned ds))
      else if name = "local" then some (.object [])
      else none := by
  have hroots : (initialScope assigned ds).roots =
      [("var", .object (variableValues assigned ds)), ("local", .object [])] :=
    Scope.roots_foldl_markComputed _ _
  rw [Scope.get?, hroots]
  by_cases hv : name = "var"
  · simp [Entries.get?_cons, hv]
  · by_cases hl : name = "local"
    · simp [Entries.get?_cons, hl]
    · simp [Entries.get?_cons, hv, hl, Ne.symm hv, Ne.symm hl]

theorem getPath?_initialScope_of_address (assigned : Entries Value) {ds : List Declaration}
    {p : List String} (hp : Address p) :
    (initialScope assigned ds).getPath? p = none := by
  cases hp with
  | single name => simp [Scope.getPath?, get?_initialScope, Value.getPath?_cons, Value.entries]
  | data type name => simp [Scope.getPath?, get?_initialScope]
  | resource name hv hl hd => simp [Scope.getPath?, get?_initialScope, hv, hl]

end Module

namespace Builder

variable {b : Builder} (h : Module.Separate b.declarations) (hs : b.build.settled = true)
include h hs

theorem settled_build : Module.pass b.declarations b.build.scope = b.build.scope ∧
    ∀ e ∈ Module.entries b.declarations,
      b.build.scope.getPath? e.address = some (e.value b.build.scope) := by
  have hb : ∀ e ∈ Module.entries b.declarations,
      (Module.initialScope b.assigned b.declarations).getPath? e.address = none :=
    fun e he => Module.getPath?_initialScope_of_address b.assigned (h.address he)
  exact Module.settle_settled (n := Module.maxPasses) h.apart hb .base hs

/-- One more pass over a settled module whose entries do not overlap changes nothing. -/
theorem pass_build : Module.pass b.declarations b.build.scope = b.build.scope :=
  (settled_build h hs).1

/-- In the scope of a settled module whose entries do not overlap every entry holds what it
evaluates to. -/
theorem build_consistent {e : Entry} (he : e ∈ Module.entries b.declarations) :
    b.build.scope.getPath? e.address = some (e.value b.build.scope) :=
  (settled_build h hs).2 e he

end Builder
end Preflight

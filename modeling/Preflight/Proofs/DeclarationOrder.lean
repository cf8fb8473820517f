import Mathlib.Data.List.Nodup
import Preflight.Proofs.DistinctNames
import Preflight.Proofs.Separate

/-!
# The order of declarations

In an orderly module (`Module.Orderly`) the order of the declarations has no influence on the scope:
all entries and variables have the same values, and an entry holds what it evaluates to
(`Builder.build_of_perm`). That a declaration assigns its names once is a matter of reading it
(`Directory.exists_builder_of_load`).
-/

namespace Preflight

namespace Module

/-- Declarations whose addresses and variables are distinct, whose references reach no object that
holds several of them, and in which no chain of dependent entries is too long. -/
structure Orderly (ds : List Declaration) : Prop where
  names : ∀ d ∈ ds, d.AssignsOnce
  addresses : ((entries ds).map Entry.address).Nodup
  variableNames : ((ds.filter fun d => d.heading.kind = "variable").map fun d =>
    d.heading.nameLabel).Nodup
  types : ∀ d ∈ ds, d.heading.kind = "resource" → ∀ type name, d.heading.labels = [type, name] →
    type ≠ "var" ∧ type ≠ "local" ∧ type ≠ "data"
  paths : ∀ e ∈ entries ds, ∀ p ∈ e.paths,
    p ≠ ["var"] ∧ ∀ d ∈ entries ds, p <+: d.address → p = d.address
  chains : ∀ chain : List Entry, (∀ e ∈ chain, e ∈ entries ds) → chain.IsChain Entry.DependsOn →
    chain.length ≤ 15

namespace Orderly

variable {ds ds' : List Declaration}

theorem separate (h : Orderly ds) : Separate ds :=
  ⟨h.names, h.addresses,
    fun d hd hk type name hl => (h.types d hd hk type name hl).imp_right And.right,
    fun e he p hp => (h.paths e he p hp).2⟩

theorem entry_orderly (h : Orderly ds) : Entry.Orderly (entries ds) where
  toApart := h.separate.apart
  noWhole e he p hp := (h.paths e he p hp).1

theorem ranked (h : Orderly ds) {e : Entry} (he : e ∈ entries ds) :
    e.RankedBy (entries ds) 15 :=
  Entry.rankedBy_of_chains he fun chain hm hc => h.chains (e :: chain) hm hc

theorem perm (h : Orderly ds) (hp : ds.Perm ds') : Orderly ds' := by
  have hes : (entries ds).Perm (entries ds') := hp.flatMap_right _
  refine ⟨fun d hd => h.names d (hp.mem_iff.2 hd), (hes.map _).nodup_iff.1 h.addresses,
    ((hp.filter _).map _).nodup_iff.1 h.variableNames, fun d hd => h.types d (hp.mem_iff.2 hd),
    fun e he p hpe => ?_, fun chain hm => h.chains chain fun e he => hes.mem_iff.2 (hm e he)⟩
  obtain ⟨hv, ha⟩ := h.paths e (hes.mem_iff.2 he) p hpe
  exact ⟨hv, fun d hd => ha d (hes.mem_iff.2 hd)⟩

end Orderly

/-! ### The scope before the first pass -/

section Initial

variable {ds ds' : List Declaration} (assigned : Entries Value)

theorem get?_variableValues_perm (h : Orderly ds) (hp : ds.Perm ds') (name : String) :
    (variableValues assigned ds).get? name = (variableValues assigned ds').get? name := by
  have hkeys : ∀ {ds}, Orderly ds → (Entries.keys ((ds.filter fun d => d.heading.kind = "variable").map
      fun d => (d.heading.nameLabel, d.variableValue assigned))).Nodup := by
    intro ds h
    rw [Entries.keys, List.map_map]
    exact h.variableNames
  rw [variableValues, variableValues, Entries.get?_ofList (hkeys h),
    Entries.get?_ofList (hkeys (h.perm hp))]
  exact Entries.get?_perm ((hp.filter _).map _) (hkeys h) name

/-- Before the first pass the order of the declarations shows in the order of the variables only. -/
theorem initialScope_perm (h : Orderly ds) (hp : ds.Perm ds') :
    Entry.Alike (entries ds) (initialScope assigned ds) (initialScope assigned ds') := by
  refine ⟨fun path => ?_, fun p _ => ?_⟩
  · rw [initialScope, initialScope, Scope.mem_computed_foldl_markComputed,
      Scope.mem_computed_foldl_markComputed, (hp.filterMap computedPath?).mem_iff]
    exact Iff.rfl
  · match p with
    | [] => exact Or.inl rfl
    | root :: names =>
      by_cases hv : root = "var"
      · subst hv
        cases names with
        -- The object of all variables may list them in another order.
        | nil =>
          right
          simp [Scope.getPath?, get?_initialScope]
        | cons name names =>
          left
          simp only [Scope.getPath?, get?_initialScope, if_true, Option.bind_some,
            Value.getPath?_cons, Value.entries, get?_variableValues_perm assigned h hp]
      · left
        simp only [Scope.getPath?, get?_initialScope, hv, if_false]

end Initial

end Module

namespace Builder

open Preflight.Module Preflight.Entry

variable {ds ds' : List Declaration}

/-- The scope of an orderly module comes from writing entries, and each entry holds what it evaluates
to. -/
theorem build_settled (h : Module.Orderly ds) (sources : List (Option String))
    (assigned : Entries Value) :
    let s := (Builder.mk sources ds assigned).build.scope
    Reached (entries ds) (initialScope assigned ds) s ∧ Complete (entries ds) s ∧
      ∀ e ∈ entries ds, s.getPath? e.address = some (e.value s) := by
  have hb : ∀ e ∈ entries ds, (initialScope assigned ds).getPath? e.address = none :=
    fun e he => getPath?_initialScope_of_address assigned (h.separate.address he)
  obtain ⟨hr, hc, hcs⟩ := settle_consistent h.entry_orderly hb
  exact ⟨hr, hc, fun e he => hcs e he (h.ranked he)⟩

/-- In the scope of an orderly module each entry holds what it evaluates to in that scope. Neither
these values nor those of the variables depend on the order of the declarations. -/
theorem build_of_perm (h : Module.Orderly ds) (hp : ds.Perm ds')
    (sources sources' : List (Option String)) (assigned : Entries Value) :
    let s := (Builder.mk sources ds assigned).build.scope
    let s' := (Builder.mk sources' ds' assigned).build.scope
    (∀ e ∈ entries ds, s.getPath? e.address = some (e.value s) ∧
      s'.getPath? e.address = some (e.value s') ∧ e.value s = e.value s') ∧
      ∀ name, s.getPath? ["var", name] = s'.getPath? ["var", name] := by
  intro s s'
  have hes : ∀ e, e ∈ entries ds' ↔ e ∈ entries ds := fun e => (hp.symm.flatMap_right _).mem_iff
  obtain ⟨hr, hc, hs⟩ := build_settled h sources assigned
  obtain ⟨hr', hc', hs'⟩ := build_settled (h.perm hp) sources' assigned
  have halike : Alike (entries ds) s s' :=
    hr.alike (initialScope_perm assigned h hp) (hr'.mono fun e he => (hes e).1 he)
  have hcomplete : Complete (entries ds) s' := fun e he => hc' e ((hes e).2 he)
  have hsame : ∀ e ∈ entries ds, SameAt s s' e := fun e he =>
    Consistent.sameAt h.entry_orderly halike hc hcomplete (fun d hd _ => hs d hd)
      (fun d hd _ => hs' d ((hes d).2 hd)) he (h.ranked he)
  constructor
  · intro e he
    have hv := hsame e he
    rw [SameAt, hs e he, hs' e ((hes e).2 he)] at hv
    exact ⟨hs e he, hs' e ((hes e).2 he), Option.some.inj hv⟩
  · intro name
    have hdiv : ∀ e ∈ entries ds, Diverge e.address ["var", name] :=
      fun e he => (h.separate.address he).diverge_variable name
    exact (halike.outside _ hdiv).resolve_right fun hv => by simp at hv

/-- A local that refers to a later one has its value in either order of the blocks. -/
theorem build_of_perm_locals :
    let here : Location := ⟨none, none⟩
    let a : Assignment := ⟨"a", .traversal (.variable "local") [.field "b"], here⟩
    let b : Assignment := ⟨"b", .traversal (.variable "var") [.field "x"], here⟩
    let first : Declaration := ⟨⟨"locals", [], here⟩, [a], []⟩
    let second : Declaration := ⟨⟨"locals", [], here⟩, [b], []⟩
    let third : Declaration := ⟨⟨"variable", ["x"], here⟩, [], []⟩
    let ds := [first, second, third]
    let s := (Builder.mk [] ds [("x", .string "eu")]).build.scope
    let s' := (Builder.mk [] ds.reverse [("x", .string "eu")]).build.scope
    Module.Orderly ds ∧ ds.Perm ds.reverse ∧
      ∀ e ∈ entries ds, s'.getPath? e.address = some (e.value s') ∧ e.value s = e.value s' := by
  intro here a b first second third ds s s'
  have hes : entries ds = [.single first a, .single second b] := rfl
  have ha : (Entry.single first a).paths = [["local", "b"]] := rfl
  have hb : (Entry.single second b).paths = [["var", "x"]] := rfl
  have hp : ds.Perm ds.reverse := ds.reverse_perm.symm
  have hdrop : ∀ e ∈ entries ds, ∀ d ∈ entries ds, e.DependsOn d →
      (if d.address = ["local", "a"] then 1 else 0) < if e.address = ["local", "a"] then 1 else 0 := by
    rw [hes]
    simp [Entry.DependsOn, ha, hb, Entry.address, a, b]
  have h : Module.Orderly ds := by
    refine ⟨?_, ?_, ?_, ?_, ?_, fun chain hm hc => ?_⟩
    · simp [ds, first, second, third, Declaration.AssignsOnce]
    · rw [hes]
      decide
    · decide
    · simp [ds, first, second, third]
    · rw [hes]
      simp [ha, hb, Entry.address, a, b]
    · cases chain with
      | nil => simp
      | cons e chain =>
        have hl := length_le_of_drop (fun e => if e.address = ["local", "a"] then 1 else 0) hdrop hm hc
        exact hl.trans (by split <;> decide)
  exact ⟨h, hp, fun e he => ((build_of_perm h hp [] [] [("x", .string "eu")]).1 e he).2⟩

end Builder
end Preflight

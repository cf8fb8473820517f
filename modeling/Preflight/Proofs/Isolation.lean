import Preflight.Extraction
import Preflight.Proofs.Writes

/-!
# Modules on their own

What resolving parameters changes, and what it leaves alone.

* `Scope.Framed` says of two scopes that nothing differs apart from some paths. One write is framed by
  its path, a parameter by the path of its value, and a run over parameters by all of these.
* The scope of a module is framed by the values of its own parameters
  (`Module.framed_resolveParameters`).
* `resolve_isolated`: the modules of two graphs put together do not see each other.
-/

namespace Preflight

/-! ### Frames of scopes -/

namespace Scope

/-- Nothing that lies apart from the written paths differs, nor do the computed paths. -/
structure Framed (written : List (List String)) (s t : Scope) : Prop where
  computed : t.computed = s.computed
  getPath? : ∀ q, (∀ p ∈ written, Diverge p q) → t.getPath? q = s.getPath? q

namespace Framed

variable {ps qs : List (List String)} {s t u : Scope}

theorem refl (s : Scope) : Framed ps s s := ⟨rfl, fun _ _ => rfl⟩

theorem trans (h : Framed ps s t) (h' : Framed qs t u) : Framed (ps ++ qs) s u := by
  refine ⟨h'.computed.trans h.computed, fun q hq => ?_⟩
  rw [List.forall_mem_append] at hq
  rw [h'.getPath? q hq.2, h.getPath? q hq.1]

theorem set (s : Scope) (p : List String) (v : Value) : Framed [p] s (s.set p v) := by
  refine ⟨s.computed_set p v, fun q hq => ?_⟩
  exact s.getPath?_set_of_diverge (hq p List.mem_cons_self) v

end Framed
end Scope

/-! ### Frames of runs -/

namespace Parameter

variable {input : Input}

theorem framed_writeBack (b : Block) (s : Scope) (value : ParameterValue) :
    s.Framed [valuePath b] (writeBack b s value) := by
  rw [writeBack]
  cases value.written? with
  | some v => exact .set s (valuePath b) v
  | none => exact .refl s

/-- A parameter changes the scope at the path of its value only. -/
theorem framed_resolve (s : Scope) (b : Block) : s.Framed [valuePath b] (resolve input s b).2 := by
  cases h : b.attribute? "value" with
  | some a =>
    rw [(resolve_of_value h).2]
    exact .refl s
  | none =>
    rw [(resolve_of_no_value h).2]
    exact framed_writeBack b s _

theorem framed_resolveAll (s : Scope) (bs : List Block) :
    s.Framed (bs.map valuePath) (resolveAll input s bs).2 := by
  induction bs generalizing s with
  | nil => exact .refl s
  | cons b bs ih => exact (framed_resolve s b).trans (ih (resolve input s b).2)

end Parameter

/-! ### Modules of a graph -/

theorem Module.framed_resolveParameters (m : Module) (input : Input) :
    m.scope.Framed (m.parameterBlocks.map Parameter.valuePath)
      (m.resolveParameters input).2.scope :=
  Parameter.framed_resolveAll m.scope m.parameterBlocks

/-- Modules do not see each other. The parameters, the modules and the tags of two graphs put together
are those of each graph on its own, one after the other. Each module comes back with its blocks and
computed paths, and its scope differs at the values of its own parameters only. -/
theorem resolve_isolated (input : Input) (g₁ g₂ : List Module) :
    (resolveParameters input (g₁ ++ g₂)).1 =
        (resolveParameters input g₁).1 ++ (resolveParameters input g₂).1 ∧
      (resolveParameters input (g₁ ++ g₂)).2 =
        (resolveParameters input g₁).2 ++ (resolveParameters input g₂).2 ∧
      resolveTags (g₁ ++ g₂) = resolveTags g₁ ++ resolveTags g₂ ∧
      List.Forall₂ (fun m n =>
          n.blocks = m.blocks ∧ n.scope.computed = m.scope.computed ∧
            ∀ q, (∀ p ∈ m.parameterBlocks, Diverge (Parameter.valuePath p) q) →
              n.scope.getPath? q = m.scope.getPath? q)
        (g₁ ++ g₂) (resolveParameters input (g₁ ++ g₂)).2 := by
  refine ⟨?_, ?_, ?_, ?_⟩
  · simp only [resolveParameters, List.map_append, List.flatMap_append]
  · simp only [resolveParameters, List.map_append]
  · rw [resolveTags, List.flatMap_append]
    rfl
  · have hmodules : (resolveParameters input (g₁ ++ g₂)).2 =
        (g₁ ++ g₂).map fun m => (m.resolveParameters input).2 := List.map_map
    rw [hmodules, List.forall₂_map_right_iff, List.forall₂_same]
    intro m _
    have hscope := m.framed_resolveParameters input
    exact ⟨rfl, hscope.computed, fun q hq => hscope.getPath? q (List.forall_mem_map.2 hq)⟩

/-- A supplied value replaces what is no object on the way to it. What stands beside, and a module in
whose scope there is the same but no parameter, stay as they are. -/
theorem resolve_isolated_region :
    let region : Block := ⟨⟨"data", [parameterType, "region"], ⟨none, none⟩⟩, [], [], [], []⟩
    let scope : Scope := ⟨[("data", .object [(parameterType, .unknown),
      ("coder_workspace", .object [("me", .object [])])])], [["data", "coder_workspace"]]⟩
    let modules : List Module := [⟨[], [region], scope, true⟩, ⟨[], [], scope, true⟩]
    ∃ m n, (resolveParameters [⟨"region", "eu"⟩] modules).2 = [m, n] ∧
      m.scope.getPath? ["data", parameterType, "region", "value"] = some (.string "eu") ∧
      m.scope.getPath? ["data", "coder_workspace", "me"] = some (.object []) ∧
      m.scope.computed = [["data", "coder_workspace"]] ∧
      n.scope.getPath? ["data", parameterType] = some .unknown := by
  intro region scope modules
  obtain ⟨-, hsplit, -, hframe⟩ := resolve_isolated [⟨"region", "eu"⟩]
    [⟨[], [region], scope, true⟩] [⟨[], [], scope, true⟩]
  obtain ⟨m, ms, ⟨-, hcomputed, hm⟩, hrest, hall⟩ := List.forall₂_cons_left_iff.1 hframe
  obtain ⟨n, ns, ⟨-, -, hn⟩, hnil, rfl⟩ := List.forall₂_cons_left_iff.1 hrest
  obtain rfl := List.forall₂_nil_left_iff.1 hnil
  refine ⟨m, n, hall, ?_, ?_, hcomputed, ?_⟩
  · obtain ⟨rfl, -⟩ := List.cons.inj (hsplit.symm.trans hall)
    rfl
  · refine (hm _ ?_).trans rfl
    rintro p (_ | ⟨_, ⟨⟩⟩)
    exact ⟨by decide, by decide⟩
  · exact (hn _ fun p hp => nomatch hp).trans rfl

end Preflight

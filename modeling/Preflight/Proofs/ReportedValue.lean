import Preflight.Proofs.ParameterEntry
import Preflight.Proofs.PathReference

/-!
# Reported values and the scope

After the parameters of a module have been resolved, the scope holds the value that is reported of
each of them, and tags made of a parameter show this value (`Builder.reported_values`).

* For a parameter without a `value` of its own this holds whatever the module is: its value is
  written at its turn.
* A parameter with a `value` of its own writes nothing. Its attribute was written while the module
  was built, and is evaluated once more at its turn. The two agree if the module settled and the
  attribute refers to nothing that parameters write (`Builder.Steady`). Otherwise they can differ:
  an attribute made of another parameter is unknown in the scope and known in the report
  (`Builder.not_reported_values`).
-/

namespace Preflight

namespace ParameterValue

/-- A scope holds the value of a parameter at a path, or nothing if the parameter has no value. -/
def StandsAt (s : Scope) (path : List String) : ParameterValue → Prop
  | .known v => s.getPath? path = some v
  | .unknown => s.getPath? path = some .unknown
  | .errored _ => s.getPath? path = none
  | .missing => s.getPath? path = none

/-- A side of a tag shows the value of a parameter; without a value it is not known. -/
def ShowsAs (t : TagValue) : ParameterValue → Prop
  | .known v => t = .ofValue v
  | .unknown => t = .unknown
  | .errored _ => ∀ text, t ≠ .known text
  | .missing => ∀ text, t ≠ .known text

theorem standsAt_iff {s : Scope} {path : List String} {q : ParameterValue} :
    q.StandsAt s path ↔ s.getPath? path = q.written? := by
  cases q <;> rfl

theorem StandsAt.showsAs {q : ParameterValue} {name : String} {site : TagSite}
    (h : q.StandsAt site.context.scope ["data", parameterType, name, "value"])
    (hl : site.context.locals.get? "data" = none) :
    q.ShowsAs (site.value (Parameter.reference name)).value := by
  cases q with
  | known v => exact site.value_reference hl h
  | unknown => exact site.value_reference hl h
  | errored reasons => exact site.value_ofPath_ne_known hl h
  | missing => exact site.value_ofPath_ne_known hl h

/-- The value of an expression is wholly known or unknown, so nothing of it is lost. -/
theorem written?_ofValue (c : Context) (e : Expr) :
    (ofValue (c.value e)).written? = some (c.value e) := by
  by_cases hu : c.value e = .unknown
  · rw [hu]
    rfl
  · rw [ofValue, if_pos (Context.isWhollyKnown_of_evaluate (Context.evaluate_of_value hu) hu)]
    rfl

end ParameterValue

namespace Builder

variable {b : Builder}

/-- The module settled, its entries do not overlap, and a parameter that stands for one block sets
its value by references on which no value written for another parameter shows. -/
structure Steady (b : Builder) (p : Block) : Prop where
  separate : Module.Separate b.declarations
  settled : b.build.settled = true
  single : p.isMultiple = false
  apart : ∀ a, p.attribute? "value" = some a → ∀ r ∈ a.expression.references,
    ∀ c ∈ b.build.parameterBlocks, c.attribute? "value" = none →
      Diverge (Parameter.footprint b.build.scope c) r.path

/-- After the parameters of a module have been resolved, the scope holds the reported value of every
parameter that sets none itself, and of every one that sets it steadily. So do tags show it. -/
theorem reported_values (h : b.build.Placed) (hn : b.build.Named) (input : Input) :
    let resolved := b.build.resolveParameters input
    List.Forall₂ (fun p q => p.attribute? "value" = none ∨ b.Steady p →
        q.value.StandsAt resolved.2.scope (Parameter.valuePath p) ∧
          ∀ site : TagSite, site.context.scope = resolved.2.scope →
            site.context.locals.get? "data" = none →
            q.value.ShowsAs (site.value (Parameter.reference p.heading.nameLabel)).value)
      b.build.parameterBlocks resolved.1 := by
  intro resolved
  refine Parameter.forall₂_resolveAll fun l p r hlr hp => ?_
  have hpm : p ∈ b.build.parameterBlocks := by simp [hlr]
  have hstands : ParameterValue.StandsAt resolved.2.scope (Parameter.valuePath p)
      (Parameter.resolve input (Parameter.resolveAll input b.build.scope l).2 p).1.value := by
    rw [ParameterValue.standsAt_iff, hn.getPath?_resolveParameters input hlr, Parameter.written?]
    cases ha : p.attribute? "value" with
    | none =>
      rw [getPath?_valuePath h hn hpm ha]
      simp
    | some a =>
      have hsteady : b.Steady p := hp.resolve_left (by simp [ha])
      have hl : ∀ c ∈ l, c ∈ b.build.parameterBlocks := fun c hc => by simp [hlr, hc]
      -- At its turn the attribute has the value that the passes gave it.
      have hturn : (p.context (Parameter.resolveAll input b.build.scope l).2).value a.expression =
          (p.context b.build.scope).value a.expression :=
        (Context.value_eq (fun ref href =>
          sameFor_resolveAll (fun _ hc => held h hc) input (hsteady.apart a ha ref href) hl)
          p.locals).symm
      rw [(Parameter.resolve_of_value ha).1, hturn, ParameterValue.written?_ofValue,
        getPath?_valuePath_of_separate hsteady.separate hsteady.settled hpm (h.labels p hpm),
        hsteady.single, ha]
      rfl
  refine ⟨hstands, fun site hscope hlocals => ?_⟩
  rw [Module.valuePath_of_mem hpm (h.labels p hpm), ← hscope] at hstands
  exact hstands.showsAs hlocals

/-! ### A value made of a variable, and one made of another parameter -/

/-- A variable `x`, a parameter `region` with a default, and a parameter `zone` that sets its value
by an expression. -/
def zoned (value : Expr) : Builder :=
  let here : Location := ⟨none, none⟩
  ⟨[], [
    ⟨⟨"variable", ["x"], here⟩, [], []⟩,
    ⟨⟨"data", ["coder_parameter", "region"], here⟩, [⟨"default", .string "us", here⟩], []⟩,
    ⟨⟨"data", ["coder_parameter", "zone"], here⟩, [⟨"value", value, here⟩], []⟩],
    [("x", .string "eu")]⟩

/-- The scope of `zoned` with the value of `zone` in it. -/
def zonedScope (zone : Value) : Scope :=
  ⟨[("var", .object [("x", .string "eu")]), ("local", .object []), ("data", .object [
    ("coder_parameter", .object [("region", .object [("default", .string "us")]),
      ("zone", .object [("value", zone)])])])], []⟩

theorem placed_zoned (value : Expr) : (zoned value).build.Placed :=
  placed_build (by simp [zoned, parameterDeclarations]) (by simp [zoned])

theorem named_zoned (value : Expr) : (zoned value).build.Named :=
  named_build (by simp [zoned, parameterDeclarations]) (by
    simp [zoned, parameterDeclarations, Heading.typeLabel, Heading.nameLabel, parameterType])

/-- If `zone` takes the value of the variable, both parameters stand in the scope as they are
reported. -/
theorem reported_values_zoned :
    let b := zoned (.ofPath "var" ["x"])
    let resolved := b.build.resolveParameters []
    b.build.Placed ∧ b.build.Named ∧
      (∀ p ∈ b.build.parameterBlocks, p.attribute? "value" = none ∨ b.Steady p) ∧
      List.Forall₂ (fun p q => q.value.StandsAt resolved.2.scope (Parameter.valuePath p))
        b.build.parameterBlocks resolved.1 := by
  intro b resolved
  obtain ⟨hscope, hsettled⟩ : b.build.scope = zonedScope (.string "eu") ∧ b.build.settled = true :=
    build_of_pass rfl rfl rfl
  have hblocks : b.build.parameterBlocks =
      b.parameterDeclarations.map (Declaration.materialize (zonedScope (.string "eu"))) := by
    rw [parameterBlocks_build, hscope]
  have hseparate : Module.Separate b.declarations := by
    refine ⟨?_, ?_, ?_, ?_⟩
    · simp [b, zoned, Declaration.AssignsOnce]
    · decide
    · simp [b, zoned]
    · decide
  have hall : ∀ p ∈ b.build.parameterBlocks, p.attribute? "value" = none ∨ b.Steady p := by
    intro p hp
    rw [hblocks] at hp
    rcases List.mem_cons.1 hp with rfl | hp
    · left
      rw [Declaration.attribute?_materialize]
      rfl
    · obtain rfl := List.mem_singleton.1 hp
      refine Or.inr ⟨hseparate, hsettled, ?_, fun a ha r hr c hc _ => ?_⟩
      · rw [Declaration.isMultiple_materialize]
        rfl
      · rw [Declaration.attribute?_materialize] at ha
        obtain rfl := Option.some.inj ha
        have hpath : r.path = ["var", "x"] := by
          have href : r ∈ (Expr.ofPath "var" ["x"]).references := hr
          rw [Expr.references_ofPath, List.mem_singleton] at href
          rw [href]
          rfl
        rw [hpath]
        have hc' := Parameter.path_prefix_footprint b.build.scope c
        rw [Module.path_of_mem hc ((placed_zoned _).labels c hc)] at hc'
        exact Diverge.extend (by simp [Diverge]) hc'
  have hplaced : b.build.Placed := placed_zoned _
  have hnamed : b.build.Named := named_zoned _
  -- Without its value the module is not built anew when the two statements are compared.
  clear_value b
  have h := reported_values hplaced hnamed []
  exact ⟨hplaced, hnamed, hall,
    ((List.forall₂_and_left _ _).2 ⟨hall, h⟩).imp fun p q hpq => (hpq.2 hpq.1).1⟩

/-- If `zone` takes the value of `region`, this is the value that is reported, while the scope holds
something unknown, and tags made of `zone` show something unknown. -/
theorem not_reported_values :
    let b := zoned (Parameter.reference "region")
    let resolved := b.build.resolveParameters []
    b.build.Placed ∧ b.build.Named ∧
      resolved.1.map Parameter.value = [.known (.string "us"), .known (.string "us")] ∧
      ¬ List.Forall₂ (fun p q => q.value.StandsAt resolved.2.scope (Parameter.valuePath p))
        b.build.parameterBlocks resolved.1 ∧
      ∀ site : TagSite, site.context.scope = resolved.2.scope →
        site.context.locals.get? "data" = none →
        (site.value (Parameter.reference "zone")).value = .unknown := by
  intro b resolved
  obtain ⟨hscope, -⟩ : b.build.scope = zonedScope .unknown ∧ b.build.settled = true :=
    build_of_pass rfl rfl rfl
  have hblocks : b.build.parameterBlocks =
      b.parameterDeclarations.map (Declaration.materialize (zonedScope .unknown)) := by
    rw [parameterBlocks_build, hscope]
  have hvalues : resolved.1.map Parameter.value = [.known (.string "us"), .known (.string "us")] := by
    simp only [resolved, Module.resolveParameters, hblocks, hscope]
    rfl
  have hzone : resolved.2.scope.getPath? ["data", parameterType, "zone", "value"] =
      some .unknown := by
    simp only [resolved, Module.resolveParameters, hblocks, hscope]
    rfl
  refine ⟨placed_zoned _, named_zoned _, hvalues, fun h => ?_, fun site hs hl => ?_⟩
  · rw [hblocks] at h
    obtain ⟨_, _, -, h, hall⟩ := List.forall₂_cons_left_iff.1 h
    obtain ⟨q, _, hq, -, rfl⟩ := List.forall₂_cons_left_iff.1 h
    rw [hall] at hvalues
    simp only [List.map_cons, List.cons.injEq] at hvalues
    rw [hvalues.2.1] at hq
    exact absurd (hzone.symm.trans hq) (by simp)
  · rw [← hs] at hzone
    exact site.value_reference hl hzone

end Builder
end Preflight

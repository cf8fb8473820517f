import Preflight.Proofs.ParameterEntry
import Preflight.Proofs.PathReference

/-!
# Locals written out

Locals are evaluated while a module is built, and are not evaluated again when the values of
parameters have been written. So the expression of a local, evaluated in the scope that parameters
leave, can differ from the local.

* In a settled module whose entries do not overlap they differ only if the expression refers to the
  value of a parameter (`Builder.ReadsWritten`), and then one of the two is unknown
  (`Builder.inlined_local`). Where they agree, tags made of the local and tags made of its
  expression show the same.
* They do differ for a local made of a parameter, and if another local that the expression refers to
  is declared twice (`Builder.not_inlined_local`).
-/

namespace Preflight

theorem Context.lookup_eq_of_locals {s : Scope} {locals locals' : Entries Value} {r : Reference}
    (h : locals.get? r.root = locals'.get? r.root) :
    (Context.mk s locals).lookup r = (Context.mk s locals').lookup r := by
  simp only [lookup, root?, h]

/-- A reference that the policy permits lies apart from a parameter or goes to its value. -/
theorem TagPolicy.diverge_or_valuePath {m : Module} {p : Block} (hp : p ∈ m.parameterBlocks)
    (hl : p.heading.labels.length = 2) {r : Reference} (hr : refusal? r = none) :
    Diverge p.path r.path ∨ Parameter.valuePath p <+: r.path := by
  rw [Module.path_of_mem hp hl, Module.valuePath_of_mem hp hl, Reference.path]
  by_cases hd : r.root = "data"
  · obtain ⟨name, names, hn⟩ := names_of_refusal?_eq_none hr hd
    rw [hd, hn]
    by_cases heq : p.heading.nameLabel = name
    · right
      rw [heq]
      exact ⟨names, rfl⟩
    · left
      have hne : Diverge ["data", parameterType, p.heading.nameLabel]
          ["data", parameterType, name] := .of_length rfl (by simpa using heq)
      exact (hne.symm.extend ⟨"value" :: names, rfl⟩).symm
  · left
    simp [Diverge, hd, Ne.symm hd]

namespace Builder

variable {b : Builder}

/-- An expression refers to the value of a parameter that does not set it itself. -/
def ReadsWritten (b : Builder) (e : Expr) : Prop :=
  ∃ r ∈ e.references, ∃ p ∈ b.build.parameterBlocks, p.attribute? "value" = none ∧
    Parameter.valuePath p <+: r.path

section

variable (hl : ∀ p ∈ b.build.parameterBlocks, p.heading.labels.length = 2) (input : Input)

include hl

/-- Parameters leave locals alone. -/
theorem getPath?_local_resolveParameters (name : String) :
    (b.build.resolveParameters input).2.scope.getPath? ["local", name] =
      b.build.scope.getPath? ["local", name] := by
  rw [Module.scope_resolveParameters]
  refine Scope.getPath?_writeAll (fun w hw => ?_) _
  have hw := (Parameter.mem_writes hw).1
  rw [Module.valuePath_of_mem hw (hl w.1 hw)]
  simp [Diverge]

variable (h : Module.Separate b.declarations) (hs : b.build.settled = true) {e : Expr}
  (hp : TagPolicy.entry e = []) (locals : Entries Value)

include h hs hp

/-- An expression that refers to no value of a parameter has the same result before and after. -/
theorem evaluate_resolveParameters (hr : ¬ b.ReadsWritten e) :
    (Context.mk (b.build.resolveParameters input).2.scope locals).evaluate e =
      (Context.mk b.build.scope locals).evaluate e := by
  refine (Context.evaluate_eq (fun r hre => ?_) locals).symm
  rw [Module.scope_resolveParameters, ← Parameter.resolveAll_snd]
  refine sameFor_resolveAll (fun p hpm => held_of_separate h hs hpm (hl p hpm)) input
    (fun p hpm hpv => ?_) fun p hpm => hpm
  rcases TagPolicy.diverge_or_valuePath hpm (hl p hpm) (TagPolicy.refusal?_of_entry hp hre) with
    hdiv | hvalue
  · exact hdiv.extend (Parameter.path_prefix_footprint _ p)
  · exact absurd ⟨r, hre, p, hpm, hpv, hvalue⟩ hr

/-- The results before and after are the same if they are known: where a value is written, nothing
was known before. -/
theorem evaluate_resolveParameters_compatible {v w : Value}
    (hv : (Context.mk b.build.scope locals).evaluate e = .ok v)
    (hw : (Context.mk (b.build.resolveParameters input).2.scope locals).evaluate e = .ok w)
    (hvu : v ≠ .unknown) (hwu : w ≠ .unknown) : v = w := by
  refine Context.evaluate_compatible (fun r hr x y hx hy _ _ => ?_) hv hw hvu hwu
  rcases Context.eq_or_getPath?_of_lookup hx hy with hxy | ⟨hx, hy⟩
  · exact hxy
  rw [Module.scope_resolveParameters, Scope.getPath?_writeAll fun c hc => ?_] at hy
  · exact Option.some.inj (hx.symm.trans hy)
  obtain ⟨hcm, hcv⟩ := Parameter.mem_writes hc
  rcases TagPolicy.diverge_or_valuePath hcm (hl c.1 hcm) (TagPolicy.refusal?_of_entry hp hr) with
    hdiv | ⟨names, hnames⟩
  · exact hdiv.extend (Parameter.path_prefix_valuePath c.1)
  -- Before it is written there is nothing at the value of a parameter, and so nothing behind it.
  · rw [← hnames, Scope.getPath?_append _ (by simp [Parameter.valuePath]),
      getPath?_valuePath_of_separate h hs hcm (hl c.1 hcm), hcv] at hx
    simp at hx

end

/-- In the scope that the parameters of a module leave, a local and its expression have the same
value, or the expression refers to the value of a parameter and one of the two is unknown. Where
they have the same value, tags made of them show the same. -/
theorem inlined_local (h : Module.Separate b.declarations) (hs : b.build.settled = true)
    (hl : ∀ p ∈ b.build.parameterBlocks, p.heading.labels.length = 2) (input : Input)
    {d : Declaration} (hd : d ∈ b.declarations) (hk : d.heading.kind = "locals") {a : Assignment}
    (ha : a ∈ d.assignments) (hp : TagPolicy.entry a.expression = []) {locals : Entries Value}
    (hlocals : ∀ r ∈ a.expression.references, locals.get? r.root = d.rootLocals.get? r.root) :
    let resolved := (b.build.resolveParameters input).2.scope
    ∃ w, resolved.getPath? ["local", a.name] = some w ∧
      ∀ v, (Context.mk resolved locals).evaluate a.expression = .ok v →
        (v = w ∨ b.ReadsWritten a.expression ∧ (v = .unknown ∨ w = .unknown)) ∧
          (v = w → locals.get? "local" = none →
            ∀ site : TagSite, site.context = ⟨resolved, locals⟩ →
              (site.value (.ofPath "local" [a.name])).value = (site.value a.expression).value) := by
  intro resolved
  have he : Entry.single d a ∈ Module.entries b.declarations := by
    refine List.mem_flatMap.2 ⟨d, hd, ?_⟩
    simpa [Declaration.entries, hk] using ha
  have hheld : b.build.scope.getPath? ["local", a.name] =
      some ((d.context b.build.scope).value a.expression) := build_consistent h hs he
  have hcontext : (d.context b.build.scope).value a.expression =
      (Context.mk b.build.scope locals).value a.expression :=
    Context.value_congr fun r hr => (Context.lookup_eq_of_locals (hlocals r hr)).symm
  rw [hcontext, ← getPath?_local_resolveParameters hl input] at hheld
  refine ⟨_, hheld, fun v hv => ⟨?_, fun hvw hlocal site hsite => ?_⟩⟩
  · by_cases hr : b.ReadsWritten a.expression
    · by_contra hne
      rw [not_or, not_and, not_or] at hne
      obtain ⟨hne, hknown⟩ := hne
      obtain ⟨hvu, hwu⟩ := hknown hr
      exact hne (evaluate_resolveParameters_compatible hl input h hs hp locals
        (Context.evaluate_of_value hwu) hv hwu hvu).symm
    · left
      rw [evaluate_resolveParameters hl input h hs hp locals hr] at hv
      rw [Context.value, hv]
  · rw [← hvw] at hheld
    have hleft : (site.value (.ofPath "local" [a.name])).value = .ofValue v :=
      site.value_ofPath rfl (by rw [hsite]; exact hlocal) (by rw [hsite]; exact hheld)
    have hright : (site.value a.expression).value = .ofValue v :=
      site.value_of_evaluate hp (by rw [hsite]; exact hv)
    rw [hleft, hright]

/-! ### Locals made of a variable, of a parameter, and of a local declared twice -/

/-- A variable `x`, a parameter `region` with a default, and a local `zone`. -/
def localZone (zone : Expr) : Builder :=
  let here : Location := ⟨none, none⟩
  ⟨[], [
    ⟨⟨"variable", ["x"], here⟩, [], []⟩,
    ⟨⟨"data", ["coder_parameter", "region"], here⟩, [⟨"default", .string "us", here⟩], []⟩,
    ⟨⟨"locals", [], here⟩, [⟨"zone", zone, here⟩], []⟩],
    [("x", .string "eu")]⟩

/-- The scope of `localZone` with the value of `zone` in it, and with more in `region`. -/
def localZoneScope (zone : Value) (region : Entries Value) : Scope :=
  ⟨[("var", .object [("x", .string "eu")]), ("local", .object [("zone", zone)]),
    ("data", .object [("coder_parameter", .object [
      ("region", .object (("default", .string "us") :: region))])])], []⟩

theorem separate_localZone {e : Expr}
    (h : ∀ r ∈ e.references, ∀ address ∈ [["data", "coder_parameter", "region"], ["local", "zone"]],
      r.path <+: address → r.path = address) : Module.Separate (localZone e).declarations := by
  have haddresses : (Module.entries (localZone e).declarations).map Entry.address =
      [["data", "coder_parameter", "region"], ["local", "zone"]] := rfl
  have hpaths : (Module.entries (localZone e).declarations).flatMap Entry.paths =
      e.references.map Reference.path := by
    have hflat : (Module.entries (localZone e).declarations).flatMap Entry.paths =
        (e.references.map Reference.path ++ []) ++ [] := rfl
    rw [hflat, List.append_nil, List.append_nil]
  refine ⟨?_, ?_, ?_, fun x hx p hp d hd => ?_⟩
  · simp [localZone, Declaration.AssignsOnce]
  · rw [haddresses]
    decide
  · simp [localZone]
  · have hp : p ∈ e.references.map Reference.path := hpaths ▸ List.mem_flatMap.2 ⟨x, hx, hp⟩
    obtain ⟨r, hr, rfl⟩ := List.mem_map.1 hp
    exact h r hr _ (haddresses ▸ List.mem_map_of_mem hd)

theorem resolved_localZone (e : Expr) {zone : Value}
    (h : (localZone e).build.scope = localZoneScope zone []) :
    ((localZone e).build.resolveParameters []).2.scope =
      localZoneScope zone [("value", .string "us")] := by
  have hblocks : (localZone e).build.parameterBlocks = (localZone e).parameterDeclarations.map
      (Declaration.materialize (localZoneScope zone [])) := by
    rw [parameterBlocks_build, h]
  simp only [Module.resolveParameters, hblocks, h]
  rfl

/-- If `zone` is made of the variable, the local and its expression agree. -/
theorem inlined_local_localZone :
    let b := localZone (.ofPath "var" ["x"])
    let resolved := (b.build.resolveParameters []).2.scope
    Module.Separate b.declarations ∧ b.build.settled = true ∧
      ¬ b.ReadsWritten (.ofPath "var" ["x"]) ∧
      (Context.mk resolved []).evaluate (.ofPath "var" ["x"]) = .ok (.string "eu") ∧
      resolved.getPath? ["local", "zone"] = some (.string "eu") ∧
      ∀ site : TagSite, site.context = ⟨resolved, []⟩ →
        (site.value (.ofPath "local" ["zone"])).value =
          (site.value (.ofPath "var" ["x"])).value := by
  intro b resolved
  obtain ⟨hscope, hsettled⟩ : b.build.scope = localZoneScope (.string "eu") [] ∧
      b.build.settled = true := build_of_pass rfl rfl rfl
  have hresolved : resolved = localZoneScope (.string "eu") [("value", .string "us")] := by
    simp only [resolved, b] at hscope ⊢
    exact resolved_localZone _ hscope
  have hseparate : Module.Separate b.declarations := separate_localZone (by decide)
  have hlabels : ∀ p ∈ b.build.parameterBlocks, p.heading.labels.length = 2 := by
    rw [parameterBlocks_build, List.forall_mem_map]
    simp only [Declaration.heading_materialize]
    decide
  have hvalue : (Context.mk resolved []).evaluate (.ofPath "var" ["x"]) = .ok (.string "eu") := by
    rw [hresolved]
    exact Context.evaluate_ofPath (v := .string "eu") rfl rfl
  have hreads : ¬ b.ReadsWritten (.ofPath "var" ["x"]) := by
    rintro ⟨r, hr, p, hp, -, hpr⟩
    rw [Expr.references_ofPath, List.mem_singleton] at hr
    rw [Module.valuePath_of_mem hp (hlabels p hp), hr] at hpr
    simp [Reference.ofPath, Reference.path] at hpr
  have hd : ⟨⟨"locals", [], ⟨none, none⟩⟩, [⟨"zone", .ofPath "var" ["x"], ⟨none, none⟩⟩], []⟩ ∈
      b.declarations := by simp [b, localZone]
  have hlocals : ∀ r ∈ (Expr.ofPath "var" ["x"]).references,
      Entries.get? ([] : Entries Value) r.root = Entries.get? [] r.root := fun _ _ => rfl
  clear_value b
  obtain ⟨w, hw, h⟩ := inlined_local hseparate hsettled hlabels [] hd rfl List.mem_cons_self
    (TagPolicy.entry_ofPath rfl) hlocals
  obtain ⟨hvw, htags⟩ := h _ hvalue
  have hvw : .string "eu" = w := hvw.resolve_right fun h => hreads h.1
  exact ⟨hseparate, hsettled, hreads, hvalue, hvw ▸ hw, htags hvw rfl⟩

/-- A local `x` made of a local `y` that is declared once more behind it. -/
def localTwice : Builder :=
  let here : Location := ⟨none, none⟩
  ⟨[], [
    ⟨⟨"locals", [], here⟩, [⟨"y", .string "first", here⟩], []⟩,
    ⟨⟨"locals", [], here⟩, [⟨"x", .ofPath "local" ["y"], here⟩], []⟩,
    ⟨⟨"locals", [], here⟩, [⟨"y", .string "second", here⟩], []⟩], []⟩

/-- The scope of `localTwice`. -/
def localTwiceScope : Scope :=
  ⟨[("var", .object []), ("local", .object [("y", .string "second"), ("x", .string "first")])], []⟩

theorem resolved_localTwice :
    (localTwice.build.resolveParameters []).2.scope = localTwiceScope ∧
      localTwice.build.settled = true := by
  obtain ⟨hscope, hsettled⟩ : localTwice.build.scope = localTwiceScope ∧
      localTwice.build.settled = true := build_of_pass rfl rfl rfl
  have hblocks : localTwice.build.parameterBlocks = [] := by
    rw [parameterBlocks_build]
    rfl
  refine ⟨?_, hsettled⟩
  simp only [Module.resolveParameters, hblocks, hscope]
  rfl

/-- If `zone` is made of the parameter, its expression gives the value of the parameter, and the
local stays unknown. If a local is made of one that is declared once more behind it, its expression
gives the later value, and the local has the earlier one. -/
theorem not_inlined_local :
    let b := localZone (Parameter.reference "region")
    let resolved := (b.build.resolveParameters []).2.scope
    let twice := (localTwice.build.resolveParameters []).2.scope
    (Module.Separate b.declarations ∧ b.build.settled = true ∧
      TagPolicy.entry (Parameter.reference "region") = [] ∧
      (Context.mk resolved []).evaluate (Parameter.reference "region") = .ok (.string "us") ∧
      resolved.getPath? ["local", "zone"] = some .unknown ∧
      ∀ site : TagSite, site.context = ⟨resolved, []⟩ →
        (site.value (Parameter.reference "region")).value = .known "us" ∧
          (site.value (.ofPath "local" ["zone"])).value = .unknown) ∧
    (localTwice.build.settled = true ∧ TagPolicy.entry (.ofPath "local" ["y"]) = [] ∧
      (Context.mk twice []).evaluate (.ofPath "local" ["y"]) = .ok (.string "second") ∧
      twice.getPath? ["local", "x"] = some (.string "first")) := by
  intro b resolved twice
  obtain ⟨hscope, hsettled⟩ : b.build.scope = localZoneScope .unknown [] ∧
      b.build.settled = true := build_of_pass rfl rfl rfl
  have hseparate : Module.Separate b.declarations := separate_localZone (by decide)
  have hresolved : resolved = localZoneScope .unknown [("value", .string "us")] := by
    simp only [resolved, b] at hscope ⊢
    exact resolved_localZone _ hscope
  have htwice : twice = localTwiceScope := resolved_localTwice.1
  -- From here on the scopes are those written out, and not built anew.
  clear_value twice resolved b
  subst hresolved htwice
  refine ⟨⟨hseparate, hsettled, TagPolicy.entry_ofPath rfl, ?_, rfl, fun site hsite => ⟨?_, ?_⟩⟩,
    resolved_localTwice.2, TagPolicy.entry_ofPath rfl, ?_, rfl⟩
  · exact Context.evaluate_ofPath (v := .string "us") rfl rfl
  · exact site.value_reference (v := .string "us") (by rw [hsite]; rfl) (by rw [hsite]; rfl)
  · exact site.value_ofPath (v := .unknown) rfl (by rw [hsite]; rfl) (by rw [hsite]; rfl)
  · exact Context.evaluate_ofPath (v := .string "second") rfl rfl

end Builder
end Preflight

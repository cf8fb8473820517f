import Preflight.Proofs.ParameterEntry
import Preflight.Proofs.PathReference

/-!
# Values of settled modules

The blocks of a module are evaluated in the scope that the passes leave. If the module settled and its
entries do not overlap, this scope already has the values of their attributes: each local under its
name (`Builder.getPath?_local`), each attribute of a data source or resource under the address of the
block (`Builder.getPath?_attribute`). References in circles and chains of any length are no exception.
-/

namespace Preflight

/-- Where names are assigned once, each assignment is found under its name. -/
theorem Declaration.AssignsOnce.assignment? {d : Declaration} (h : d.AssignsOnce) {a : Assignment}
    (ha : a ∈ d.assignments) : d.assignment? a.name = some a := by
  obtain ⟨x, hx⟩ : ∃ x, d.assignment? a.name = some x :=
    Option.isSome_iff_exists.1 (List.find?_isSome.2 ⟨a, ha, by simp⟩)
  have hname : x.name = a.name := by simpa using List.find?_some hx
  rw [hx, List.inj_on_of_nodup_map h (List.mem_of_find?_eq_some hx) ha hname]

namespace Builder

section Settled

variable {b : Builder} (h : Module.Separate b.declarations) (hs : b.build.settled = true)
  {d : Declaration} (hd : d ∈ b.declarations) {a : Assignment} (ha : a ∈ d.assignments)
include h hs hd ha

theorem getPath?_local (hk : d.heading.kind = "locals") :
    b.build.scope.getPath? ["local", a.name] =
      some ((d.context b.build.scope).value a.expression) := by
  have he : Entry.single d a ∈ Module.entries b.declarations := by
    refine List.mem_flatMap.2 ⟨d, hd, ?_⟩
    simpa [Declaration.entries, hk] using ha
  exact build_consistent h hs he

/-- The attributes of a data source or resource stand under its address, unless it stands for any number
of blocks. -/
theorem getPath?_attribute (hk : d.heading.kind = "data" ∨ d.heading.kind = "resource")
    {type name : String} (hl : d.heading.labels = [type, name]) (hm : d.isMultiple = false) :
    b.build.scope.getPath? ((Entry.block d).address ++ [a.name]) =
      some ((d.context b.build.scope).value a.expression) := by
  have he : Entry.block d ∈ Module.entries b.declarations := by
    refine List.mem_flatMap.2 ⟨d, hd, ?_⟩
    rcases hk with hk | hk <;> simp [Declaration.entries, hk, hl]
  rw [Scope.getPath?_append _ (h.apart.address_ne_nil he), build_consistent h hs he,
    Option.bind_some, Entry.value, Declaration.getPath?_referenceValue, hm,
    (h.names d hd).assignment? ha]
  rfl

end Settled

/-- A settled module whose entries do not overlap is consistent: one more pass changes nothing, and the
scope has the values of the attributes of all locals, and of all data sources and resources that stand
for one block. -/
theorem settled_values {b : Builder} (h : Module.Separate b.declarations)
    (hs : b.build.settled = true) :
    Module.pass b.declarations b.build.scope = b.build.scope ∧
      ∀ c ∈ b.build.blocks, ∀ a ∈ c.attributes,
        (c.heading.kind = "locals" →
          b.build.scope.getPath? ["local", a.name] = some a.value) ∧
        ∀ type name, c.heading.labels = [type, name] → c.isMultiple = false →
          (c.heading.kind = "data" →
            b.build.scope.getPath? ["data", type, name, a.name] = some a.value) ∧
          (c.heading.kind = "resource" →
            b.build.scope.getPath? [type, name, a.name] = some a.value) := by
  refine ⟨pass_build h hs, fun c hc a ha => ?_⟩
  obtain ⟨d, hd, rfl⟩ := List.mem_map.1 hc
  rw [show (Declaration.materialize _ d).attributes = _ from d.attributes_materialize _] at ha
  obtain ⟨x, hx, rfl⟩ := List.mem_map.1 ha
  simp only [Declaration.heading_materialize, Declaration.isMultiple_materialize]
  refine ⟨getPath?_local h hs hd hx, fun type name hl hm => ⟨fun hk => ?_, fun hk => ?_⟩⟩
  · have hpath := getPath?_attribute h hs hd hx (Or.inl hk) hl hm
    rwa [Entry.address, if_pos hk, hl] at hpath
  · have hpath := getPath?_attribute h hs hd hx (Or.inr hk) hl hm
    rwa [Entry.address, if_neg (by simp [hk]), hl] at hpath

/-- Two locals that are made of each other, and a resource made of a parameter made of a local. -/
def cyclic : Builder :=
  let here : Location := ⟨none, none⟩
  ⟨[], [
    ⟨⟨"locals", [], here⟩, [⟨"left", .ofPath "local" ["right"], here⟩,
      ⟨"right", .ofPath "local" ["left"], here⟩, ⟨"region", .string "eu", here⟩], []⟩,
    ⟨⟨"data", [parameterType, "region"], here⟩,
      [⟨"default", .ofPath "local" ["region"], here⟩], []⟩,
    ⟨⟨"resource", ["docker_image", "main"], here⟩,
      [⟨"name", .ofPath "data" [parameterType, "region", "default"], here⟩], []⟩], []⟩

/-- The scope of `cyclic`. -/
def cyclicScope : Scope :=
  ⟨[("var", .object []), ("local", .object
      [("left", .unknown), ("right", .unknown), ("region", .string "eu")]),
    ("data", .object [(parameterType, .object [("region", .object
      [("default", .string "eu")])])]),
    ("docker_image", .object [("main", .object [("name", .string "eu")])])],
    [["docker_image"]]⟩

/-- The module settles: the two locals are unknown, and the resource has its name. -/
theorem settled_values_cyclic :
    Module.Separate cyclic.declarations ∧ cyclic.build.settled = true ∧
      cyclic.build.scope.getPath? ["local", "left"] = some .unknown ∧
      cyclic.build.scope.getPath? ["docker_image", "main", "name"] = some (.string "eu") := by
  obtain ⟨hscope, hsettled⟩ : cyclic.build.scope = cyclicScope ∧ cyclic.build.settled = true :=
    build_of_pass rfl rfl rfl
  have hseparate : Module.Separate cyclic.declarations := by
    refine ⟨?_, ?_, ?_, ?_⟩
    · simp [cyclic, Declaration.AssignsOnce]
    · decide
    · simp [cyclic]
    · decide
  obtain ⟨-, hvalues⟩ := settled_values hseparate hsettled
  have hblocks : cyclic.build.blocks =
      cyclic.declarations.map (Declaration.materialize cyclic.build.scope) := rfl
  rw [hblocks, hscope] at hvalues
  rw [hscope]
  refine ⟨hseparate, hsettled, ?_, ?_⟩
  · exact (hvalues _ (.head _) _ (.head _)).1 rfl
  · exact ((hvalues _ (.tail _ (.tail _ (.head _))) _ (.head _)).2 _ _ rfl rfl).2 rfl

end Builder
end Preflight

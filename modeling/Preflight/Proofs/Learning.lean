import Preflight.Proofs.ParameterEntry

/-!
# Learning what a module leaves unknown

The scope of a module is refined, and parameters and tags are resolved once more. Each parameter of
the module has an object to write its value into, so what was known of parameters and tags stays
(`Builder.resolution_settles`), unless a declared type turns from unknown into null: null is no type, and
a default that had none to convert to gets its value (`Builder.not_resolution_settles`).
-/

namespace Preflight

/-- The same blocks in another scope. -/
def Module.withScope (m : Module) (s : Scope) : Module := { m with scope := s }

namespace Builder

variable {b : Builder}

/-- The parameters of a module have two labels and stand for one block each, and no resource is of
the type `data`. -/
structure Plain (b : Builder) : Prop where
  labels : ∀ p ∈ b.build.parameterBlocks, p.heading.labels.length = 2
  single : ∀ p ∈ b.build.parameterBlocks, p.isMultiple = false
  types : ∀ c ∈ b.build.blocks, c.heading.kind = "resource" → c.heading.typeLabel ≠ "data"

theorem Plain.placed (h : b.Plain) : b.build.Placed := ⟨h.labels, h.types⟩

/-- In the scope of a module an object stands where the value of a parameter is written. -/
theorem Plain.hasObject (h : b.Plain) {p : Block} (hp : p ∈ b.build.parameterBlocks) :
    Parameter.HasObject b.build.scope p := by
  have hobject : ∃ v, b.build.scope.getPath? p.path = some v ∧ ∃ es, v = .object es := by
    refine exists_value h.placed hp fun d hmem _ s => ?_
    have hsingle : d.isMultiple = false := by
      rw [← d.isMultiple_materialize b.build.scope]
      exact h.single _ hmem
    rw [Declaration.referenceValue, hsingle]
    exact ⟨_, rfl⟩
  obtain ⟨_, hpath, es, rfl⟩ := hobject
  exact ⟨es, hpath⟩

/-- The scope of a module is refined, and its parameters and then its tags are resolved in both
scopes. If no declared type turns from unknown into null at the turn of its parameter, known, missing
and errored parameters stay so, and so do the known and errored sides of tags. -/
theorem resolution_settles (h : b.Plain) (input : Input) {s' : Scope}
    (hs : b.build.scope.Refines s')
    (ht : Parameter.TypesStay input b.build.scope s' b.build.parameterBlocks) :
    let first := b.build.resolveParameters input
    let second := (b.build.withScope s').resolveParameters input
    List.Forall₂ (fun p q => p.value.Settles q.value) first.1 second.1 ∧
      List.Forall₂ TagBlock.Settles first.2.resolveTags second.2.resolveTags := by
  obtain ⟨hvalues, hscope⟩ := Parameter.resolveAll_settles (hs.settles ["value"])
    (fun _ hp => h.hasObject hp) h.labels ht
  refine ⟨hvalues, ?_⟩
  simp only [Module.resolveTags, Module.resolveParameters, List.forall₂_map_left_iff,
    List.forall₂_map_right_iff]
  exact List.forall₂_same.2 fun c _ => TagBlock.resolve_settles hscope c

/-! ### A type that turns from unknown into null -/

/-- A parameter `p` whose type is a variable without a value, a parameter `q` without a type, and a
tag made of `q`. -/
def typedByVariable : Builder :=
  let here : Location := ⟨none, none⟩
  ⟨[], [
    ⟨⟨"variable", ["t"], here⟩, [], []⟩,
    ⟨⟨"data", ["coder_parameter", "p"], here⟩, [⟨"default", .string "x", here⟩,
      ⟨"type", .traversal (.variable "var") [.field "t"], here⟩], []⟩,
    ⟨⟨"data", ["coder_parameter", "q"], here⟩, [⟨"default", .string "y", here⟩], []⟩,
    ⟨⟨"data", ["coder_workspace_tags", "tags"], here⟩, [⟨"tags", .object [(.name "zone",
      .traversal (.variable "data") [.field "coder_parameter", .field "q", .field "value"])], here⟩],
      []⟩], []⟩

/-- The scope of `typedByVariable` with a value of the variable. -/
def typedScope (t : Value) : Scope :=
  ⟨[("var", .object [("t", t)]), ("local", .object []), ("data", .object [
    ("coder_parameter", .object [("p", .object [("default", .string "x"), ("type", .unknown)]),
      ("q", .object [("default", .string "y")])]),
    ("coder_workspace_tags", .object [("tags", .object [("tags", .unknown)])])])],
    [["data", "coder_workspace_tags"]]⟩

theorem scope_typedByVariable : typedByVariable.build.scope = typedScope .unknown := by
  have hs : Module.pass typedByVariable.declarations
      (Module.initialScope [] typedByVariable.declarations) = typedScope .unknown := rfl
  have ht : Module.pass typedByVariable.declarations (typedScope .unknown) = typedScope .unknown :=
    rfl
  exact (build_of_pass hs ht rfl).1

theorem parameterBlocks_typedByVariable : typedByVariable.build.parameterBlocks =
    ((typedByVariable.declarations.drop 1).take 2).map
      (Declaration.materialize (typedScope .unknown)) := by
  rw [parameterBlocks_build, scope_typedByVariable]
  rfl

theorem plain_typedByVariable : typedByVariable.Plain := by
  have hplaced : typedByVariable.build.Placed := placed_build (by decide) (by decide)
  refine ⟨hplaced.labels, ?_, hplaced.types⟩
  rw [parameterBlocks_build, List.forall_mem_map]
  simp only [Declaration.isMultiple_materialize]
  decide

theorem refines_typedByVariable (t : Value) :
    typedByVariable.build.scope.Refines (typedScope t) := by
  rw [scope_typedByVariable]
  refine ⟨fun name => ?_, fun _ => Iff.rfl⟩
  by_cases hn : name = "var"
  · rw [hn]
    exact .some (Value.settles_object.2 ⟨_, rfl, by simp [Value.SettlesEntries]⟩)
  · exact rel_of_eq (Value.settles_refl []) (by
      simp [typedScope, Scope.get?, Entries.get?_cons, Ne.symm hn])

/-- With null for its type the errored parameter `p` becomes known. -/
theorem not_resolution_settles :
    typedByVariable.Plain ∧ typedByVariable.build.scope.Refines (typedScope .null) ∧
      (typedScope .null).get? "data" = typedByVariable.build.scope.get? "data" ∧
      ¬ List.Forall₂ (fun p q => p.value.Settles q.value)
        (typedByVariable.build.resolveParameters []).1
        ((typedByVariable.build.withScope (typedScope .null)).resolveParameters []).1 := by
  refine ⟨plain_typedByVariable, refines_typedByVariable .null, ?_, fun h => ?_⟩
  · rw [scope_typedByVariable]
    rfl
  · have hp : List.Forall₂ (fun p q : Parameter => p.value.Settles q.value)
        (Parameter.resolveAll [] typedByVariable.build.scope typedByVariable.build.parameterBlocks).1
        (Parameter.resolveAll [] (typedScope .null) typedByVariable.build.parameterBlocks).1 := h
    rw [scope_typedByVariable, parameterBlocks_typedByVariable] at hp
    obtain ⟨reason, hr⟩ := (List.forall₂_cons.1 hp).1
    cases hr

/-- Once the variable is a string, `p` stays errored, and `q` and the tag stay known. -/
theorem resolution_settles_typedByVariable :
    let s' := typedScope (.string "number")
    let first := typedByVariable.build.resolveParameters []
    let second := (typedByVariable.build.withScope s').resolveParameters []
    typedByVariable.Plain ∧ typedByVariable.build.scope.Refines s' ∧
      Parameter.TypesStay [] typedByVariable.build.scope s' typedByVariable.build.parameterBlocks ∧
      List.Forall₂ (fun p q => p.value.Settles q.value) first.1 second.1 ∧
      List.Forall₂ TagBlock.Settles first.2.resolveTags second.2.resolveTags := by
  intro s' first second
  have ht : Parameter.TypesStay [] typedByVariable.build.scope s'
      typedByVariable.build.parameterBlocks := by
    rw [scope_typedByVariable, parameterBlocks_typedByVariable]
    refine ⟨fun _ a ha _ => ?_, fun _ a ha _ => ?_, trivial⟩
    · cases ha
      have hv : Value.string "number" ≠ .null := by simp
      exact hv
    · cases ha
  exact ⟨plain_typedByVariable, refines_typedByVariable _, ht,
    resolution_settles plain_typedByVariable [] (refines_typedByVariable _) ht⟩

end Builder
end Preflight

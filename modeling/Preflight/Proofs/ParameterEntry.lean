import Mathlib.Data.List.Nodup
import Preflight.Proofs.Separate
import Preflight.Proofs.Writes

/-!
# The entries of parameters

A parameter of a module is also an entry of the scope: the passes write its attributes as an object,
or something unknown if it stands for any number of blocks. What is known of all values of this
entry is known of what the scope of the module holds (`Builder.exists_value`), as long as nothing
else is written at its path. In a settled module whose entries do not overlap this is the value of
its declaration (`Builder.exists_declaration`).
-/

namespace Preflight

/-- A run leaves a value with some property at an address if the entries at the address evaluate to
such values, the other ones lie apart from it, and such a value is there or an entry writes one. -/
theorem Entry.exists_run {l : List Entry} {p : List String} (hp : p ≠ []) {P : Value → Prop}
    (hl : ∀ e ∈ l, Diverge e.address p ∨ e.address = p ∧ ∀ s, P (e.value s))
    {s : Scope} (hs : (∃ v, s.getPath? p = some v ∧ P v) ∨ ∃ e ∈ l, e.address = p) :
    ∃ v, (run s l).getPath? p = some v ∧ P v := by
  induction l generalizing s with
  | nil =>
    rcases hs with hs | ⟨e, he, -⟩
    · exact hs
    · cases he
  | cons e l ih =>
    refine ih (fun d hd => hl d (List.mem_cons_of_mem _ hd)) ?_
    rcases hl e List.mem_cons_self with hdiv | ⟨heq, hP⟩
    · rcases hs with ⟨v, hs, hv⟩ | ⟨d, hd, hdp⟩
      · exact Or.inl ⟨v, by rw [write, s.getPath?_set_of_diverge hdiv, hs], hv⟩
      · rcases List.mem_cons.1 hd with rfl | hd
        · exact absurd (hdp ▸ List.prefix_refl _) hdiv.1
        · exact Or.inr ⟨d, hd, hdp⟩
    -- The entry replaces what stands at the address by its own value.
    · exact Or.inl ⟨_, by rw [write, heq, s.getPath?_set_self hp], hP s⟩

namespace Declaration

theorem heading_materialize (d : Declaration) (s : Scope) :
    (d.materialize s).heading = d.heading := by
  cases d
  rfl

theorem locals_materialize (d : Declaration) (s : Scope) :
    (d.materialize s).locals = d.rootLocals := by
  cases d
  rfl

theorem attributes_materialize (d : Declaration) (s : Scope) :
    (d.materialize s).attributes = d.assignments.map (Assignment.evaluate (d.context s)) := by
  cases d
  rfl

theorem attribute?_materialize (d : Declaration) (s : Scope) (name : String) :
    (d.materialize s).attribute? name =
      (d.assignment? name).map (Assignment.evaluate (d.context s)) := by
  rw [Block.attribute?, attributes_materialize, List.find?_map]
  rfl

theorem isMultiple_materialize (d : Declaration) (s : Scope) :
    (d.materialize s).isMultiple = d.isMultiple := by
  simp only [Block.isMultiple, isMultiple, assigns, attribute?_materialize, Option.isSome_map]

theorem get?_rootLocals (d : Declaration) {name : String} (hc : name ≠ "count")
    (he : name ≠ "each") : d.rootLocals.get? name = none := by
  rw [rootLocals, Entries.get?_append]
  cases d.assigns "count" <;> cases d.assigns "for_each" <;>
    simp [Entries.get?_cons, Ne.symm hc, Ne.symm he]

/-- What references see of a declaration under a name is the value of the assignment to it. -/
theorem getPath?_referenceValue (d : Declaration) (s : Scope) (name : String) :
    (d.referenceValue s).getPath? [name] =
      if d.isMultiple then none
      else (d.assignment? name).map fun a => (d.context s).value a.expression := by
  rw [referenceValue]
  by_cases hm : d.isMultiple = true
  · rw [if_pos hm, if_pos hm]
    rfl
  · rw [if_neg hm, if_neg hm, Value.getPath?_cons, Value.entries_object, Entries.get?_map_pair,
      assignment?]
    cases d.assignments.find? fun a => a.name = name <;> simp

end Declaration

/-! ### The parameters of a module -/

namespace Module

/-- The parameters of a module have two labels each and different names. -/
structure Named (m : Module) : Prop where
  labels : ∀ p ∈ m.parameterBlocks, p.heading.labels.length = 2
  names : (m.parameterBlocks.map fun p => p.heading.nameLabel).Nodup

/-- The parameters of a module have two labels each, and no resource is of the type `data`: nothing
but a parameter is written at the path of a parameter. -/
structure Placed (m : Module) : Prop where
  labels : ∀ p ∈ m.parameterBlocks, p.heading.labels.length = 2
  types : ∀ c ∈ m.blocks, c.heading.kind = "resource" → c.heading.typeLabel ≠ "data"

/-- The parameters of a module change its scope by what they write. -/
theorem scope_resolveParameters (m : Module) (input : Input) :
    (m.resolveParameters input).2.scope =
      m.scope.writeAll (Parameter.writes input m.scope m.parameterBlocks) :=
  Parameter.resolveAll_snd m.scope m.parameterBlocks

theorem mem_parameterBlocks {m : Module} {p : Block} : p ∈ m.parameterBlocks ↔
    p ∈ m.blocks ∧ p.heading.kind = "data" ∧ p.heading.typeLabel = parameterType := by
  rw [parameterBlocks, blocksOf, List.mem_filter, decide_eq_true_eq]

theorem heading_of_mem {m : Module} {p : Block} (hp : p ∈ m.parameterBlocks)
    (hl : p.heading.labels.length = 2) :
    p.heading.kind = "data" ∧ p.heading.labels = [parameterType, p.heading.nameLabel] := by
  obtain ⟨-, hk, ht⟩ := mem_parameterBlocks.1 hp
  obtain ⟨type, name, hlabels⟩ := List.length_eq_two.1 hl
  rw [Heading.typeLabel, hlabels] at ht
  rw [Heading.nameLabel, hlabels]
  have htype : type = parameterType := ht
  exact ⟨hk, by rw [htype]; rfl⟩

theorem path_of_mem {m : Module} {p : Block} (hp : p ∈ m.parameterBlocks)
    (hl : p.heading.labels.length = 2) :
    p.path = ["data", parameterType, p.heading.nameLabel] := by
  obtain ⟨hk, hlabels⟩ := heading_of_mem hp hl
  rw [Block.path, hk, hlabels]

theorem valuePath_of_mem {m : Module} {p : Block} (hp : p ∈ m.parameterBlocks)
    (hl : p.heading.labels.length = 2) :
    Parameter.valuePath p = ["data", parameterType, p.heading.nameLabel, "value"] := by
  rw [Parameter.valuePath_eq, path_of_mem hp hl]
  rfl

/-- Parameters of one name are the same block. -/
theorem Named.eq_of_labels {m : Module} (h : m.Named) {p q : Block} (hp : p ∈ m.parameterBlocks)
    (hq : q ∈ m.parameterBlocks) (hpq : p.heading.labels = q.heading.labels) : p = q :=
  List.inj_on_of_nodup_map h.names hp hq (by simp only [Heading.nameLabel, hpq])

/-- No other parameter has the same path. -/
theorem Named.diverge {m : Module} {l r : List Block} {p : Block} (h : m.Named)
    (hp : m.parameterBlocks = l ++ p :: r) :
    ∀ c ∈ l ++ r, Diverge (Parameter.valuePath c) (Parameter.valuePath p) := by
  intro c hc
  have hpm : p ∈ m.parameterBlocks := by simp [hp]
  have hcm : c ∈ m.parameterBlocks := by
    rw [hp]
    rcases List.mem_append.1 hc with hc | hc <;> simp [hc]
  have hnames := h.names
  rw [hp, List.map_append, List.map_cons, List.nodup_middle, ← List.map_append,
    List.nodup_cons] at hnames
  have hne : c.heading.nameLabel ≠ p.heading.nameLabel := fun heq =>
    hnames.1 (heq ▸ List.mem_map_of_mem hc)
  rw [valuePath_of_mem hcm (h.labels c hcm), valuePath_of_mem hpm (h.labels p hpm)]
  exact .of_length rfl (by simpa using hne)

/-- After all parameters the value of one is what it wrote at its turn, or what was there before. -/
theorem Named.getPath?_resolveParameters {m : Module} {l r : List Block} {p : Block} (h : m.Named)
    (input : Input) (hp : m.parameterBlocks = l ++ p :: r) :
    (m.resolveParameters input).2.scope.getPath? (Parameter.valuePath p) =
      (Parameter.written? input (Parameter.resolveAll input m.scope l).2 p).or
        (m.scope.getPath? (Parameter.valuePath p)) := by
  rw [resolveParameters, hp]
  exact Parameter.getPath?_resolveAll (h.diverge hp) m.scope

end Module

namespace Builder

open Preflight.Module

variable {b : Builder}

/-- The declarations of the parameters. -/
def parameterDeclarations (b : Builder) : List Declaration :=
  b.declarations.filter fun d => d.heading.kind = "data" ∧ d.heading.typeLabel = parameterType

theorem blocksOf_build (b : Builder) (kind type : String) : b.build.blocksOf kind type =
    (b.declarations.filter fun d => d.heading.kind = kind ∧ d.heading.typeLabel = type).map
      (Declaration.materialize b.build.scope) := by
  have hblocks : b.build.blocks = b.declarations.map (Declaration.materialize b.build.scope) := rfl
  simp only [blocksOf, hblocks, List.filter_map, Function.comp_def,
    Declaration.heading_materialize]

theorem parameterBlocks_build (b : Builder) : b.build.parameterBlocks =
    b.parameterDeclarations.map (Declaration.materialize b.build.scope) :=
  b.blocksOf_build "data" parameterType

theorem mem_parameterBlocks {p : Block} :
    p ∈ b.build.parameterBlocks ↔ ∃ d ∈ b.declarations, d.materialize b.build.scope = p ∧
      d.heading.kind = "data" ∧ d.heading.typeLabel = parameterType := by
  simp only [parameterBlocks_build, parameterDeclarations, List.mem_map, List.mem_filter,
    decide_eq_true_eq]
  exact exists_congr fun d => by rw [and_assoc, and_comm (a := _ ∧ _)]

theorem locals_get? {c : Block} {type : String} (hc : c ∈ b.build.blocksOf "data" type)
    {name : String} (hn : name ≠ "count") (he : name ≠ "each") : c.locals.get? name = none := by
  rw [blocksOf_build] at hc
  obtain ⟨d, -, rfl⟩ := List.mem_map.1 hc
  rw [Declaration.locals_materialize]
  exact d.get?_rootLocals hn he

theorem named_build (hl : ∀ d ∈ b.parameterDeclarations, d.heading.labels.length = 2)
    (hn : (b.parameterDeclarations.map fun d => d.heading.nameLabel).Nodup) : b.build.Named := by
  refine ⟨?_, ?_⟩
  · rw [parameterBlocks_build, List.forall_mem_map]
    simpa only [Declaration.heading_materialize] using hl
  · rw [parameterBlocks_build, List.map_map]
    simpa only [Function.comp_def, Declaration.heading_materialize] using hn

theorem placed_build (hl : ∀ d ∈ b.parameterDeclarations, d.heading.labels.length = 2)
    (ht : ∀ d ∈ b.declarations, d.heading.kind = "resource" → d.heading.typeLabel ≠ "data") :
    b.build.Placed := by
  refine ⟨?_, ?_⟩
  · rw [parameterBlocks_build, List.forall_mem_map]
    simpa only [Declaration.heading_materialize] using hl
  · have hblocks : b.build.blocks = b.declarations.map (Declaration.materialize b.build.scope) := rfl
    rw [hblocks, List.forall_mem_map]
    simpa only [Declaration.heading_materialize] using ht

/-- An entry lies apart from a parameter, or it is a parameter of the same name. -/
theorem diverge_or_labels (h : b.build.Placed) {e : Entry} (he : e ∈ Module.entries b.declarations)
    (name : String) : Diverge e.address ["data", parameterType, name] ∨
      e.address = ["data", parameterType, name] ∧ ∃ d ∈ b.declarations, e = .block d ∧
        d.heading.kind = "data" ∧ d.heading.labels = [parameterType, name] := by
  obtain ⟨d, hd, he⟩ := List.mem_flatMap.1 he
  rcases Declaration.mem_entries he with ⟨a, rfl⟩ | ⟨rfl, hk | hk, type, label, hl⟩
  · left
    simp [Entry.address, Diverge]
  · rw [Entry.address, if_pos hk, hl]
    by_cases heq : [type, label] = [parameterType, name]
    · exact Or.inr ⟨by rw [heq], d, hd, rfl, hk, hl.trans heq⟩
    · exact Or.inl (.of_length rfl (by simpa using heq))
  · have ht := h.types (d.materialize b.build.scope) (List.mem_map.2 ⟨d, hd, rfl⟩)
    rw [Declaration.heading_materialize] at ht
    have ht := ht hk
    rw [Heading.typeLabel, hl] at ht
    have ht : type ≠ "data" := ht
    left
    rw [Entry.address, if_neg (by simp [hk]), hl]
    simp [Diverge, ht, Ne.symm ht]

/-- In the scope of a module there is a value at the path of a parameter, with every property that
the parameters of this name have in all scopes. -/
theorem exists_value (h : b.build.Placed) {p : Block} (hp : p ∈ b.build.parameterBlocks)
    {P : Value → Prop} (hP : ∀ d : Declaration, d.materialize b.build.scope ∈ b.build.parameterBlocks →
      d.heading.labels = p.heading.labels → ∀ s, P (d.referenceValue s)) :
    ∃ v, b.build.scope.getPath? p.path = some v ∧ P v := by
  obtain ⟨hk, hl⟩ := heading_of_mem hp (h.labels p hp)
  obtain ⟨d, hd, hdp, -⟩ := mem_parameterBlocks.1 hp
  have hheading : d.heading = p.heading := by rw [← hdp, Declaration.heading_materialize]
  have hm : Entry.block d ∈ Module.entries b.declarations :=
    List.mem_flatMap.2 ⟨d, hd, by simp [Declaration.entries, hheading, hk, hl]⟩
  have haddress : (Entry.block d).address = ["data", parameterType, p.heading.nameLabel] := by
    rw [Entry.address, hheading, if_pos hk, hl]
  obtain ⟨t, hscope⟩ := b.exists_pass
  rw [path_of_mem hp (h.labels p hp), hscope, Module.pass_eq_run]
  refine Entry.exists_run (by simp) (fun e he => ?_) (Or.inr ⟨.block d, hm, haddress⟩)
  rcases diverge_or_labels h he p.heading.nameLabel with hdiv | ⟨ha, c, hc, rfl, hck, hcl⟩
  · exact Or.inl hdiv
  · have hmem : c.materialize b.build.scope ∈ b.build.parameterBlocks :=
      mem_parameterBlocks.2 ⟨c, hc, rfl, hck, by rw [Heading.typeLabel, hcl]; rfl⟩
    exact Or.inr ⟨ha, hP c hmem (hcl.trans hl.symm)⟩

theorem held (h : b.build.Placed) {p : Block} (hp : p ∈ b.build.parameterBlocks) :
    Parameter.Held b.build.scope p := by
  obtain ⟨v, hv, -⟩ := exists_value (P := fun _ => True) h hp fun _ _ _ _ => trivial
  exact ⟨h.labels p hp, v, hv⟩

/-- Before its value is written there is none at the path of a parameter that sets none itself. -/
theorem getPath?_valuePath (h : b.build.Placed) (hn : b.build.Named) {p : Block}
    (hp : p ∈ b.build.parameterBlocks) (hv : p.attribute? "value" = none) :
    b.build.scope.getPath? (Parameter.valuePath p) = none := by
  have hvalue : ∃ v, b.build.scope.getPath? p.path = some v ∧ v.getPath? ["value"] = none := by
    refine exists_value h hp fun d hmem hdl s => ?_
    have heq : d.materialize b.build.scope = p :=
      hn.eq_of_labels hmem hp (by rw [Declaration.heading_materialize, hdl])
    rw [← heq, Declaration.attribute?_materialize, Option.map_eq_none_iff] at hv
    rw [Declaration.getPath?_referenceValue, hv]
    simp
  obtain ⟨v, hpath, hnone⟩ := hvalue
  rw [Parameter.valuePath_eq, Scope.getPath?_append _ (by simp [Block.path]), hpath]
  exact hnone

/-! ### References apart from what is written -/

/-- A path apart from all parameters that write their values looks the same at every turn. -/
theorem sameFor_resolveAll (h : ∀ p ∈ b.build.parameterBlocks, Parameter.Held b.build.scope p)
    (input : Input) {path : List String}
    (hapart : ∀ p ∈ b.build.parameterBlocks, p.attribute? "value" = none →
      Diverge (Parameter.footprint b.build.scope p) path)
    {l : List Block} (hl : ∀ p ∈ l, p ∈ b.build.parameterBlocks) :
    b.build.scope.SameFor path (Parameter.resolveAll input b.build.scope l).2 := by
  rw [Parameter.resolveAll_snd]
  refine .writeAll (fun w hw => ?_) fun w hw => ?_
  · exact h _ (hl _ (Parameter.mem_writes hw).1)
  · exact hapart _ (hl _ (Parameter.mem_writes hw).1) (Parameter.mem_writes hw).2

/-! ### Parameters of settled modules whose entries do not overlap -/

section Separate

variable {p : Block} (h : Separate b.declarations) (hs : b.build.settled = true)
  (hp : p ∈ b.build.parameterBlocks) (hl : p.heading.labels.length = 2)

include h hs hp hl

/-- The path of a parameter holds what references see of its declaration. -/
theorem exists_declaration : ∃ d ∈ b.declarations, d.materialize b.build.scope = p ∧
    b.build.scope.getPath? p.path = some (d.referenceValue b.build.scope) := by
  obtain ⟨hk, hlabels⟩ := heading_of_mem hp hl
  obtain ⟨d, hd, hdp, -⟩ := mem_parameterBlocks.1 hp
  have hheading : d.heading = p.heading := by rw [← hdp, Declaration.heading_materialize]
  have he : Entry.block d ∈ entries b.declarations :=
    List.mem_flatMap.2 ⟨d, hd, by simp [Declaration.entries, hheading, hk, hlabels]⟩
  have haddress : (Entry.block d).address = p.path := by
    rw [Entry.address, hheading, if_pos hk, Block.path, hk]
  refine ⟨d, hd, hdp, ?_⟩
  rw [← haddress]
  exact build_consistent h hs he

theorem held_of_separate : Parameter.Held b.build.scope p := by
  obtain ⟨d, -, -, hd⟩ := exists_declaration h hs hp hl
  exact ⟨hl, _, hd⟩

/-- The value of a parameter is the one that it sets itself, and there is none if it stands for any
number of blocks. -/
theorem getPath?_valuePath_of_separate : b.build.scope.getPath? (Parameter.valuePath p) =
    if p.isMultiple then none
    else (p.attribute? "value").map fun a => (p.context b.build.scope).value a.expression := by
  obtain ⟨d, -, rfl, hd⟩ := exists_declaration h hs hp hl
  rw [Parameter.valuePath_eq, Scope.getPath?_append _ (by simp [Block.path]), hd, Option.bind_some,
    Declaration.getPath?_referenceValue, Declaration.isMultiple_materialize,
    Declaration.attribute?_materialize, Option.map_map, Block.context,
    Declaration.locals_materialize]
  rfl

end Separate

end Builder
end Preflight

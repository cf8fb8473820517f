import Mathlib.Data.List.Forall2
import Preflight.Extraction
import Preflight.Proofs.TagStates

/-!
# Nothing is left out without a report

An extraction leaves out options, parameters and tag blocks, and a tag can be errored. Whatever is
left out is reported as an error, so that a result without errors has everything.

* `Accounted` relates two lists: in order, each element of the first one has its result in the
  second one, or it is left out and reported.
* A `Turn` is a block together with the scope in which it is resolved. The turns of a run over
  parameters are the blocks in order (`Parameter.block_turns`).
* `extract_accounts`: what an extraction makes of the blocks of its modules, at all levels.
-/

namespace Preflight

/-- In order, each element of the first list has its result in the second one, or is left out and
reported. -/
inductive Accounted {α β : Type} (f : α → β) (reported : α → Prop) : List α → List β → Prop
  | nil : Accounted f reported [] []
  | keep {a : α} {as : List α} {bs : List β} (hs : Accounted f reported as bs) :
      Accounted f reported (a :: as) (f a :: bs)
  | drop {a : α} {as : List α} {bs : List β} (h : reported a) (hs : Accounted f reported as bs) :
      Accounted f reported (a :: as) bs

namespace Accounted

variable {α β : Type} {f : α → β} {reported : α → Prop} {as : List α} {bs : List β}

/-- Where nothing is reported nothing is left out. -/
theorem eq_map (h : Accounted f reported as bs) (hn : ∀ a ∈ as, ¬ reported a) : bs = as.map f := by
  induction h with
  | nil => rfl
  | keep _ ih => rw [List.map_cons, ih fun a ha => hn a (List.mem_cons_of_mem _ ha)]
  | drop hr _ _ => exact absurd hr (hn _ List.mem_cons_self)

/-- Results that are filtered are accounted for if those that do not pass are reported. -/
theorem filter_map {γ : Type} (f : α → β) (passes : β → Bool) (g : β → γ)
    (h : ∀ a ∈ as, passes (f a) = false → reported a) :
    Accounted (fun a => g (f a)) reported as (((as.map f).filter passes).map g) := by
  induction as with
  | nil => exact .nil
  | cons a as ih =>
    have hs := ih fun a ha => h a (List.mem_cons_of_mem _ ha)
    cases hp : passes (f a) with
    | true =>
      rw [List.map_cons, List.filter_cons_of_pos hp]
      exact .keep hs
    | false =>
      rw [List.map_cons, List.filter_cons_of_neg (by simp [hp])]
      exact .drop (h a List.mem_cons_self hp) hs

end Accounted

/-! ### Reports -/

theorem Diagnostics.hasErrors_of_mem {ds : Diagnostics} {d : Diagnostic} (hd : d ∈ ds)
    (h : d.isError = true) : ds.hasErrors = true :=
  List.any_eq_true.2 ⟨d, hd, h⟩

/-- Errors come up in all diagnostics that hold those that they are among. -/
theorem Diagnostics.hasErrors_mono {ds es : Diagnostics} (hs : ds ⊆ es) (h : ds.hasErrors = true) :
    es.hasErrors = true := by
  obtain ⟨d, hd, he⟩ := List.any_eq_true.1 h
  exact hasErrors_of_mem (hs hd) he

/-! ### Turns -/

/-- A block with the scope in which it is resolved. -/
structure Turn where
  scope : Scope
  block : Block

namespace Turn

variable (input : Input) (t : Turn)

/-- The parameter that a block gives at its turn. -/
def parameter : Parameter := (Parameter.resolve input t.scope t.block).1

/-- The option blocks of a parameter at its turn. -/
def options : List Block := (t.block.materialize t.scope).blocksOf "option"

/-- The tags that a block gives at its turn. -/
def tagBlock : TagBlock := TagBlock.resolve t.scope t.block

/-- Where the tags of a block are evaluated at its turn. -/
def site (location : Location) : TagSite := ⟨t.block.context t.scope, location, t.block.address⟩

/-- A parameter has what its block says, whatever value it has. -/
theorem exists_describe :
    ∃ value, t.parameter input = Parameter.describe (t.block.materialize t.scope) value := by
  rw [parameter, Parameter.resolve]
  cases (t.block.materialize t.scope).attribute? "value" with
  | none => exact ⟨_, rfl⟩
  | some a => exact ⟨_, rfl⟩

/-- The options of a parameter are those that its option blocks give, in order, without those
reported, and what is reported of them is reported of the parameter. -/
structure AccountsOptions : Prop where
  options : Accounted (fun o => (Parameter.readOption o).value)
    (fun o => (Parameter.readOption o).diagnostics.hasErrors = true) t.options
    (t.parameter input).options
  reported : (t.options.flatMap fun o => (Parameter.readOption o).diagnostics) <:+:
    (t.parameter input).diagnostics

/-- A block without tags is reported. Any other one has a tag for each pair, in order, and what is
reported of the pairs; errored tags are reported. -/
structure AccountsTags : Prop where
  reported : (∀ location items, ¬ t.block.WritesTags location items) →
    t.tagBlock.diagnostics.hasErrors = true
  tags : ∀ location items, t.block.WritesTags location items →
    t.tagBlock.tags = items.map (fun item => ((t.site location).tag item).value) ∧
    t.tagBlock.diagnostics = items.flatMap (fun item => ((t.site location).tag item).diagnostics) ∧
    ∀ item ∈ items, ((t.site location).tag item).value.state = .errored →
      ((t.site location).tag item).diagnostics.hasErrors = true

theorem accountsOptions : t.AccountsOptions input := by
  obtain ⟨value, hvalue⟩ := t.exists_describe input
  refine ⟨?_, ?_⟩
  · rw [hvalue]
    exact .filter_map Parameter.readOption (fun o => !o.diagnostics.hasErrors) Reported.value
      fun o _ ho => by simpa using ho
  · have hoptions : (t.options.flatMap fun o => (Parameter.readOption o).diagnostics) =
        (Parameter.readOptions (t.block.materialize t.scope)).diagnostics := by
      simp only [Parameter.readOptions, List.flatMap_map, options]
    rw [hvalue, hoptions]
    simp only [Parameter.describe, List.append_assoc]
    exact (List.prefix_append _ _).isInfix.trans (List.suffix_append _ _).isInfix

/-- A parameter without errors has an option for each of its option blocks. -/
theorem options_eq (h : (t.parameter input).diagnostics.hasErrors ≠ true) :
    (t.parameter input).options = t.options.map fun o => (Parameter.readOption o).value := by
  obtain ⟨hoptions, hreported⟩ := t.accountsOptions input
  refine hoptions.eq_map fun o ho he => h ?_
  refine Diagnostics.hasErrors_mono (fun d hd => hreported.subset ?_) he
  exact List.mem_flatMap.2 ⟨o, ho, hd⟩

end Turn

/-! ### Tags -/

theorem Tag.state_eq_errored_iff (t : Tag) :
    t.state = .errored ↔ t.key.value = .errored ∨ t.value.value = .errored := by
  rw [state]
  cases t.key.value <;> cases t.value.value <;> simp

theorem TagValue.Reports.hasErrors {v : TagValue} {ds : Diagnostics} (h : v.Reports ds)
    (hv : v = .errored) : ds.hasErrors = true := by
  obtain ⟨d, hd⟩ := List.exists_mem_of_ne_nil ds (h.errored_iff.1 hv)
  exact Diagnostics.hasErrors_of_mem hd (h.errors d hd)

/-- An errored tag is reported. -/
theorem TagSite.hasErrors_tag (site : TagSite) (item : Key × Expr)
    (h : (site.tag item).value.state = .errored) : (site.tag item).diagnostics.hasErrors = true := by
  rcases (Tag.state_eq_errored_iff _).1 h with hk | hv
  · exact Diagnostics.hasErrors_mono (List.subset_append_left _ _)
      ((site.classified item.1).reports.hasErrors hk)
  · exact Diagnostics.hasErrors_mono (List.subset_append_right _ _)
      ((site.classified (.expr item.2)).reports.hasErrors hv)

/-- A block that cannot be used is reported. -/
theorem TagBlock.hasErrors_of_errored {s : Scope} {b : Block} (h : (resolve s b).errored = true) :
    (resolve s b).diagnostics.hasErrors = true := by
  obtain ⟨d, hd, hr⟩ := resolve_of_not_writesTags s (errored_resolve_iff.1 h)
  rw [hr]
  exact Diagnostics.hasErrors_of_mem List.mem_cons_self hd

theorem Turn.accountsTags (t : Turn) : t.AccountsTags := by
  refine ⟨fun h => TagBlock.hasErrors_of_errored (TagBlock.errored_resolve_iff.2 h), ?_⟩
  intro location items hw
  rw [tagBlock, TagBlock.resolve_of_writesTags hw]
  exact ⟨rfl, rfl, fun item _ => (t.site location).hasErrors_tag item⟩

/-- A block without errors has a tag for each pair, and none of them is errored. -/
theorem Turn.exists_tags (t : Turn) (h : t.tagBlock.diagnostics.hasErrors ≠ true) :
    ∃ location items, t.block.WritesTags location items ∧
      t.tagBlock.tags = items.map (fun item => ((t.site location).tag item).value) ∧
      ∀ tag ∈ t.tagBlock.tags, tag.state ≠ .errored := by
  obtain ⟨hreported, hpairs⟩ := t.accountsTags
  have hwrites : ∃ location items, t.block.WritesTags location items := by
    by_contra hno
    exact h (hreported fun location items hw => hno ⟨location, items, hw⟩)
  obtain ⟨location, items, hw⟩ := hwrites
  obtain ⟨htags, hds, herrored⟩ := hpairs location items hw
  refine ⟨location, items, hw, htags, fun tag htag hstate => h ?_⟩
  rw [htags] at htag
  obtain ⟨item, hi, rfl⟩ := List.mem_map.1 htag
  rw [hds]
  refine Diagnostics.hasErrors_mono (fun d hd => ?_) (herrored item hi hstate)
  exact List.mem_flatMap.2 ⟨item, hi, hd⟩

/-! ### The turns of a run -/

/-- The turns of parameters that are resolved in order. -/
def Parameter.turns (input : Input) : Scope → List Block → List Turn
  | _, [] => []
  | s, b :: bs => ⟨s, b⟩ :: turns input (resolve input s b).2 bs

theorem Parameter.block_turns (input : Input) (s : Scope) (bs : List Block) :
    (turns input s bs).map Turn.block = bs := by
  induction bs generalizing s with
  | nil => rfl
  | cons b bs ih => rw [turns, List.map_cons, ih]

theorem Parameter.resolveAll_fst (input : Input) (s : Scope) (bs : List Block) :
    (resolveAll input s bs).1 = (turns input s bs).map (Turn.parameter input) := by
  induction bs generalizing s with
  | nil => rfl
  | cons b bs ih =>
    rw [turns, List.map_cons, ← ih]
    rfl

namespace Module

/-- The turns of the parameters of a module. -/
def parameterTurns (input : Input) (m : Module) : List Turn :=
  Parameter.turns input m.scope m.parameterBlocks

/-- The turns of the tag blocks of a module, which come after its parameters. -/
def tagTurns (input : Input) (m : Module) : List Turn :=
  (m.blocksOf "data" tagsType).map (Turn.mk (m.resolveParameters input).2.scope)

variable (input : Input) (modules : List Module)

theorem block_parameterTurns : (modules.flatMap (parameterTurns input)).map Turn.block =
    modules.flatMap parameterBlocks := by
  simp only [List.map_flatMap, parameterTurns, Parameter.block_turns]

theorem block_tagTurns : (modules.flatMap (tagTurns input)).map Turn.block =
    modules.flatMap fun m => m.blocksOf "data" tagsType := by
  simp only [List.map_flatMap, tagTurns, List.map_map, Function.comp_def, List.map_id']

/-- The parameters of all modules are those of their turns. -/
theorem resolveParameters_fst : (Preflight.resolveParameters input modules).1 =
    (modules.flatMap (parameterTurns input)).map (Turn.parameter input) := by
  simp only [Preflight.resolveParameters, List.flatMap_map, List.map_flatMap]
  exact List.flatMap_congr fun m _ => Parameter.resolveAll_fst input m.scope m.parameterBlocks

/-- The tag blocks of all modules are those of their turns. -/
theorem resolveTags_resolveParameters :
    Preflight.resolveTags (Preflight.resolveParameters input modules).2 =
      (modules.flatMap (tagTurns input)).map Turn.tagBlock := by
  simp only [Preflight.resolveParameters, Preflight.resolveTags, List.map_map, List.flatMap_map,
    List.map_flatMap, tagTurns]
  rfl

end Module

/-! ### Extractions -/

/-- The diagnostics of an extraction are those of all parameters and then of all tag blocks, in order;
what has no result is reported among its own. So are options left out and errored tags. If there are
no errors then every block has its parameter, with all its options, or all its tags. -/
theorem extract_accounts (input : Input) (modules : List Module) :
    let out := (extract input modules).1
    let parameters := modules.flatMap (Module.parameterTurns input)
    let tagBlocks := modules.flatMap (Module.tagTurns input)
    parameters.map Turn.block = modules.flatMap Module.parameterBlocks ∧
    tagBlocks.map Turn.block = modules.flatMap (fun m => m.blocksOf "data" tagsType) ∧
    out.diagnostics = parameters.flatMap (fun t => (t.parameter input).diagnostics) ++
      tagBlocks.flatMap (fun t => t.tagBlock.diagnostics) ∧
    Accounted (Turn.parameter input) (fun t => (t.parameter input).diagnostics.hasErrors = true)
      parameters out.parameters ∧
    Accounted Turn.tagBlock (fun t => t.tagBlock.diagnostics.hasErrors = true)
      tagBlocks out.tagBlocks ∧
    (∀ t ∈ parameters, t.AccountsOptions input) ∧ (∀ t ∈ tagBlocks, t.AccountsTags) ∧
    (out.hasErrors = false →
      (out.parameters = parameters.map (Turn.parameter input) ∧ ∀ t ∈ parameters,
        (t.parameter input).options = t.options.map fun o => (Parameter.readOption o).value) ∧
      (out.tagBlocks = tagBlocks.map Turn.tagBlock ∧ ∀ t ∈ tagBlocks, ∃ location items,
        t.block.WritesTags location items ∧
          t.tagBlock.tags = items.map (fun item => ((t.site location).tag item).value) ∧
          ∀ tag ∈ t.tagBlock.tags, tag.state ≠ .errored)) := by
  intro out parameters tagBlocks
  have hresolved : (resolveParameters input modules).1 = parameters.map (Turn.parameter input) :=
    Module.resolveParameters_fst input modules
  have htags : resolveTags (resolveParameters input modules).2 = tagBlocks.map Turn.tagBlock :=
    Module.resolveTags_resolveParameters input modules
  have hdiagnostics : out.diagnostics =
      parameters.flatMap (fun t => (t.parameter input).diagnostics) ++
        tagBlocks.flatMap (fun t => t.tagBlock.diagnostics) := by
    simp only [out, extract, hresolved, htags, List.flatMap_map]
  have hparameters : Accounted (Turn.parameter input)
      (fun t => (t.parameter input).diagnostics.hasErrors = true) parameters out.parameters := by
    simpa only [out, extract, hresolved, List.map_id'] using
      Accounted.filter_map (Turn.parameter input) (fun p => !p.hasErrors) (fun p => p)
        fun t _ ht => by simpa [Parameter.hasErrors] using ht
  have hblocks : Accounted Turn.tagBlock (fun t => t.tagBlock.diagnostics.hasErrors = true)
      tagBlocks out.tagBlocks := by
    have hreported : ∀ t ∈ tagBlocks, (!t.tagBlock.errored) = false →
        t.tagBlock.diagnostics.hasErrors = true :=
      fun t _ ht => TagBlock.hasErrors_of_errored (by rwa [Bool.not_eq_false'] at ht)
    simpa only [out, extract, htags, List.map_id'] using
      Accounted.filter_map Turn.tagBlock (fun b => !b.errored) (fun b => b) hreported
  refine ⟨Module.block_parameterTurns input modules, Module.block_tagTurns input modules,
    hdiagnostics, hparameters, hblocks, fun t _ => t.accountsOptions input,
    fun t _ => t.accountsTags, fun hnone => ?_⟩
  -- No error is among the diagnostics of a turn, as they are all among those of the extraction.
  have hclean : ∀ ds : Diagnostics, ds ⊆ out.diagnostics → ds.hasErrors ≠ true := by
    intro ds hds he
    have hout : out.hasErrors = true := Diagnostics.hasErrors_mono hds he
    rw [hnone] at hout
    cases hout
  rw [hdiagnostics] at hclean
  have hcleanParameter : ∀ t ∈ parameters, (t.parameter input).diagnostics.hasErrors ≠ true :=
    fun t ht => hclean _ fun d hd => List.mem_append_left _ (List.mem_flatMap.2 ⟨t, ht, hd⟩)
  have hcleanTags : ∀ t ∈ tagBlocks, t.tagBlock.diagnostics.hasErrors ≠ true :=
    fun t ht => hclean _ fun d hd => List.mem_append_right _ (List.mem_flatMap.2 ⟨t, ht, hd⟩)
  exact ⟨⟨hparameters.eq_map hcleanParameter, fun t ht => t.options_eq input (hcleanParameter t ht)⟩,
    hblocks.eq_map hcleanTags, fun t ht => t.exists_tags (hcleanTags t ht)⟩

/-- A module with a tag and a parameter with two options, the second one with some assignments. -/
def twoOptions (second : List Assignment) : Module :=
  let here : Location := ⟨none, none⟩
  let option : Heading := ⟨"option", [], here⟩
  let first : List Assignment := [⟨"name", .string "Europe", here⟩, ⟨"value", .string "eu", here⟩]
  ⟨[], [
    ⟨⟨"data", [parameterType, "region"], here⟩, [⟨"name", .string "region", .unknown, here⟩], [],
      [⟨option, first, []⟩, ⟨option, second, []⟩], []⟩,
    ⟨⟨"data", [tagsType, "tags"], here⟩,
      [⟨"tags", .object [(.name "os", .string "linux")], .unknown, here⟩], [], [], []⟩],
    .empty, true⟩

/-- Two options that can be read are both there. One without a value leaves its parameter out, which
is reported. -/
theorem extract_accounts_twoOptions :
    let name : Assignment := ⟨"name", .string "America", ⟨none, none⟩⟩
    let value : Assignment := ⟨"value", .string "us", ⟨none, none⟩⟩
    let complete := (extract [] [twoOptions [name, value]]).1
    let broken := (extract [] [twoOptions [name]]).1
    complete.hasErrors = false ∧ complete.parameters.map (fun p => p.options.length) = [2] ∧
      complete.tagBlocks.map (fun b => b.tags.map Tag.state) = [[.known]] ∧
      broken.parameters = [] ∧ broken.hasErrors = true := by
  intro name value complete broken
  have hclean : complete.hasErrors = false := by decide +kernel
  have hbroken : broken.parameters = [] := List.isEmpty_iff.1 (by decide +kernel)
  obtain ⟨-, -, -, -, -, -, -, hcomplete⟩ := extract_accounts [] [twoOptions [name, value]]
  obtain ⟨⟨hparameters, -⟩, htagBlocks, -⟩ := hcomplete hclean
  refine ⟨hclean, ?_, ?_, hbroken, ?_⟩
  · rw [hparameters]
    decide +kernel
  · rw [htagBlocks]
    decide +kernel
  · obtain ⟨-, -, -, -, -, -, -, hall⟩ := extract_accounts [] [twoOptions [name]]
    by_contra hno
    obtain ⟨⟨hparameters, -⟩, -⟩ := hall (Bool.eq_false_iff.2 hno)
    cases hbroken.symm.trans hparameters

end Preflight

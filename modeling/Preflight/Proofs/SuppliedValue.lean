import Preflight.Extraction
import Preflight.Proofs.ParameterEntry
import Preflight.Proofs.PathReference
import Preflight.Proofs.TagStates

/-!
# Supplied values

A value that the caller supplies for a parameter is its value, and it is what tags made of the
parameter show, whatever else the module and the modules beside it hold:
`Builder.supplied_value_wins`.

* At the turn of the parameter the value is written, and no other parameter writes at its path
  (`Module.Named.getPath?_resolveParameters`).
* The tags of a block with an object literal are resolved one by one (`TagBlock.resolve_of_object`).
-/

namespace Preflight

/-! ### At the turn of the parameter -/

namespace Parameter

theorem resolveValue_of_supplied {b : Block} {input : Input} {s : String}
    (h : input.value? b.heading.nameLabel = some s) (scope : Scope) :
    resolveValue b scope input = .known (.string s) := by
  rw [resolveValue, h]

/-- The caller supplies a value for a parameter that sets none itself. -/
def Takes (input : Input) (p : Block) (s : String) : Prop :=
  p.attribute? "value" = none ∧ input.value? p.heading.nameLabel = some s

theorem Takes.resolve {input : Input} {p : Block} {s : String} (h : Takes input p s)
    (scope : Scope) : (resolve input scope p).1.value = .known (.string s) := by
  rw [(resolve_of_no_value h.1).1]
  exact resolveValue_of_supplied (b := p.materialize scope) h.2 scope

theorem Takes.written? {input : Input} {p : Block} {s : String} (h : Takes input p s)
    (scope : Scope) : written? input scope p = some (.string s) := by
  rw [Parameter.written?, h.1]
  simp only [h.resolve scope, ParameterValue.written?]

end Parameter

/-! ### Tag blocks -/

/-- An object literal is not null, whatever its parts are. -/
theorem Context.isNull_value_object (c : Context) (items : List (Key × Expr)) :
    (c.value (.object items)).isNull = false := by
  by_cases hu : c.value (.object items) = .unknown
  · rw [hu]
    rfl
  · rcases evaluate_eq_ok (evaluate_of_value hu) with h | ⟨-, d, hd, hv⟩
    · exact absurd h hu
    · rw [hv]
      simp only [Expr.eval, Expr.evalIn] at hd
      cases hes : evalEntries c.env none (.object items) items with
      | error f =>
        rw [hes] at hd
        cases hd
      | ok es =>
        rw [hes] at hd
        cases hd
        rfl

/-- A block with an object literal for its tags has one tag for each entry. -/
theorem TagBlock.resolve_of_object {b : Block} {a : Attribute} {items : List (Key × Expr)}
    (ha : b.presentAttribute? "tags" = some a) (hi : a.expression = .object items) (s : Scope) :
    (TagBlock.resolve s b).errored = false ∧ (TagBlock.resolve s b).tags =
      items.map fun item => (TagSite.tag ⟨b.context s, a.location, b.address⟩ item).value := by
  rw [resolve_of_writesTags (Block.writesTags_iff.2 ⟨a, ha, rfl, hi⟩)]
  exact ⟨rfl, rfl⟩

namespace Builder

variable {b : Builder}

/-- A tag block of a module has an object literal for its tags only if it can be used. -/
theorem presentAttribute?_of_object {c : Block} {type : String} (hc : c ∈ b.build.blocksOf "data" type)
    {name : String} {a : Attribute} (ha : c.attribute? name = some a) {items : List (Key × Expr)}
    (hi : a.expression = .object items) : c.presentAttribute? name = some a := by
  rw [blocksOf_build] at hc
  obtain ⟨d, -, rfl⟩ := List.mem_map.1 hc
  rw [Block.presentAttribute?, ha, Option.filter_some, if_pos]
  rw [Declaration.attribute?_materialize] at ha
  obtain ⟨x, -, rfl⟩ := Option.map_eq_some_iff.1 ha
  have hx : x.expression = .object items := hi
  simp [Assignment.evaluate, hx, Context.isNull_value_object]

/-- Beside other modules, the parameters of a module and then its tags are resolved. A parameter for
which the caller supplies a value has that value, and every key or value of a tag that refers to it
is known to be that value. -/
theorem supplied_value_wins (h : b.build.Named) (before after : List Module) (input : Input) :
    let all := resolveParameters input (before ++ b.build :: after)
    let own := b.build.resolveParameters input
    all.1 = (resolveParameters input before).1 ++ own.1 ++ (resolveParameters input after).1 ∧
    resolveTags all.2 = resolveTags (resolveParameters input before).2 ++ own.2.resolveTags ++
      resolveTags (resolveParameters input after).2 ∧
    List.Forall₂ (fun p q => ∀ s, Parameter.Takes input p s → q.value = .known (.string s))
      b.build.parameterBlocks own.1 ∧
    List.Forall₂ (fun c t => ∀ a items, c.attribute? "tags" = some a → a.expression = .object items →
        t.errored = false ∧ List.Forall₂ (fun item tag =>
          ∀ p ∈ b.build.parameterBlocks, ∀ s, Parameter.Takes input p s →
            (item.1 = .expr (Parameter.reference p.heading.nameLabel) → tag.key.value = .known s) ∧
            (item.2 = Parameter.reference p.heading.nameLabel → tag.value.value = .known s))
          items t.tags)
      (b.build.blocksOf "data" tagsType) own.2.resolveTags := by
  intro all own
  have hscope : ∀ p ∈ b.build.parameterBlocks, ∀ s, Parameter.Takes input p s →
      own.2.scope.getPath? (Parameter.valuePath p) = some (.string s) := by
    intro p hp s hs
    obtain ⟨l, r, hlr⟩ := List.append_of_mem hp
    rw [h.getPath?_resolveParameters input hlr, hs.written?]
    rfl
  refine ⟨?_, ?_, ?_, ?_⟩
  · simp [all, own, resolveParameters, List.append_assoc]
  · simp [all, own, resolveParameters, resolveTags, List.append_assoc]
  · exact Parameter.forall₂_resolveAll fun l p r _ s hs => hs.resolve _
  · rw [show own.2.resolveTags = (b.build.blocksOf "data" tagsType).map
      (TagBlock.resolve own.2.scope) from rfl, List.forall₂_map_right_iff, List.forall₂_same]
    intro c hc a items ha hi
    obtain ⟨herrored, htags⟩ :=
      TagBlock.resolve_of_object (presentAttribute?_of_object hc ha hi) hi own.2.scope
    refine ⟨herrored, ?_⟩
    rw [htags, List.forall₂_map_right_iff, List.forall₂_same]
    intro item _ p hp s hs
    let site : TagSite := ⟨c.context own.2.scope, a.location, c.address⟩
    have hside : (site.value (Parameter.reference p.heading.nameLabel)).value = .known s := by
      have hpath := hscope p hp s hs
      rw [Module.valuePath_of_mem hp (h.labels p hp)] at hpath
      have hlocals : c.locals.get? "data" = none := locals_get? hc (by decide) (by decide)
      exact site.value_reference hlocals hpath
    refine ⟨fun hk => ?_, fun hv => ?_⟩
    · rw [TagSite.tag, hk]
      exact hside
    · rw [TagSite.tag, hv]
      exact hside

/-- A parameter that stands for two blocks, with a default, and a tag whose key and value are made
of it. -/
def counted : Builder :=
  let here : Location := ⟨none, none⟩
  ⟨[], [
    ⟨⟨"data", ["coder_parameter", "region"], here⟩, [⟨"count", .number (.int 2), here⟩,
      ⟨"default", .string "us", here⟩], []⟩,
    ⟨⟨"data", ["coder_workspace_tags", "tags"], here⟩, [⟨"tags", .object [(.expr
      (Parameter.reference "region"), Parameter.reference "region")], here⟩], []⟩], []⟩

/-- Of two values supplied for the parameter the last one shows in both sides of the tag. -/
theorem supplied_value_wins_counted :
    let input : Input := [⟨"region", "ap"⟩, ⟨"region", "eu"⟩]
    let own := counted.build.resolveParameters input
    counted.build.Named ∧ own.1.map Parameter.value = [.known (.string "eu")] ∧
      own.2.resolveTags.map (fun t => t.tags.map fun tag => (tag.key.value, tag.value.value)) =
        [[(.known "eu", .known "eu")]] := by
  intro input own
  have hnamed : counted.build.Named := named_build (by decide) (by decide)
  obtain ⟨-, -, hvalues, htags⟩ := supplied_value_wins hnamed [] [] input
  obtain ⟨p, hp, hname, htakes⟩ : ∃ p, counted.build.parameterBlocks = [p] ∧
      p.heading.nameLabel = "region" ∧ Parameter.Takes input p "eu" := by
    refine ⟨_, parameterBlocks_build counted, rfl, ?_, rfl⟩
    rw [Declaration.attribute?_materialize]
    rfl
  obtain ⟨c, hc, a, ha, hi⟩ : ∃ c, counted.build.blocksOf "data" tagsType = [c] ∧
      ∃ a, c.attribute? "tags" = some a ∧ a.expression =
        .object [(.expr (Parameter.reference "region"), Parameter.reference "region")] := by
    refine ⟨_, blocksOf_build counted "data" tagsType, ?_⟩
    rw [Declaration.attribute?_materialize]
    exact ⟨_, rfl, rfl⟩
  refine ⟨hnamed, ?_, ?_⟩
  · rw [hp, List.forall₂_cons_left_iff] at hvalues
    obtain ⟨q, qs, hq, hqs, hown⟩ := hvalues
    rw [show own.1 = _ from hown, List.forall₂_nil_left_iff.1 hqs, List.map_cons, hq "eu" htakes]
    rfl
  · rw [hc, List.forall₂_cons_left_iff] at htags
    obtain ⟨t, ts, ht, hts, hown⟩ := htags
    obtain ⟨-, htag⟩ := ht a _ ha hi
    obtain ⟨tag, tags, hsides, htags, hall⟩ := List.forall₂_cons_left_iff.1 htag
    obtain ⟨hkey, hvalue⟩ := hsides p (by simp [hp]) "eu" htakes
    rw [hname] at hkey hvalue
    rw [show own.2.resolveTags = _ from hown, List.forall₂_nil_left_iff.1 hts, List.map_cons, hall,
      List.forall₂_nil_left_iff.1 htags, List.map_cons, hkey rfl, hvalue rfl]
    rfl

end Builder
end Preflight

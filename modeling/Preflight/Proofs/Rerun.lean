import Preflight.Extraction
import Preflight.Proofs.ParameterEntry
import Preflight.Proofs.PathReference

/-!
# Extracting again

The values of parameters stay in the scopes of modules when an extraction is over, so an extraction
with another input on the same modules can come across them.

* A run over parameters and what an earlier run has left in the scope
  (`Parameter.resolveAll_leftover`): the results are the same as without, if the run writes what it
  reads before it reads it, and what it does not write stays left.
* If in all modules nothing left shows in a parameter at its turn or in a tag (`Module.Renews`),
  then an extraction after another one has the result that it has on its own
  (`Builder.extract_again`).
* A tag made of a parameter that has a value in the first run only shows this value in the second
  run (`Builder.not_extract_again`).
-/

namespace Preflight

namespace Parameter

variable {input : Input} {s s' : Scope} {b : Block}

/-! ### A turn -/

theorem resolveValue_eq (h : ∀ a, b.attribute? "default" = some a →
    ∀ r ∈ a.expression.references, s.SameFor r.path s') :
    resolveValue b s input = resolveValue b s' input := by
  rw [resolveValue, resolveValue]
  cases input.value? b.heading.nameLabel with
  | some v => rfl
  | none =>
    cases ha : b.attribute? "default" with
    | none => rfl
    | some a => simp only [Block.context, Context.evaluate_eq (h a ha)]

/-- A parameter is the same, and writes the same, in scopes that show its references the same. -/
theorem resolve_eq (h : ∀ r ∈ b.references, s.SameFor r.path s') :
    (resolve input s b).1 = (resolve input s' b).1 ∧ written? input s b = written? input s' b := by
  have hfst : (resolve input s b).1 = (resolve input s' b).1 := by
    have hvalue : resolveValue (b.materialize s') s input =
        resolveValue (b.materialize s') s' input := by
      refine resolveValue_eq fun a ha r hr => h r ?_
      rw [Block.attribute?_materialize, Option.map_eq_some_iff] at ha
      obtain ⟨x, hx, rfl⟩ := ha
      exact List.mem_append_left _ (List.mem_flatMap.2 ⟨x, List.mem_of_find?_eq_some hx, hr⟩)
    simp only [resolve, Block.materialize_eq h, hvalue]
    cases (b.materialize s').attribute? "value" <;> rfl
  exact ⟨hfst, by rw [written?, written?, hfst]⟩

/-- A parameter is the same, and writes the same, after values that do not show in its references have
been written. -/
theorem resolve_writeAll {ws : List (Block × Value)} (hws : ∀ w ∈ ws, Held s w.1)
    (h : ∀ r ∈ b.references, ∀ w ∈ ws, Diverge (footprint s w.1) r.path) :
    (resolve input (s.writeAll ws) b).1 = (resolve input s b).1 ∧
      written? input (s.writeAll ws) b = written? input s b := by
  obtain ⟨hfst, hwritten⟩ : (resolve input s b).1 = (resolve input (s.writeAll ws) b).1 ∧
      written? input s b = written? input (s.writeAll ws) b :=
    resolve_eq fun r hr => .writeAll hws (h r hr)
  exact ⟨hfst.symm, hwritten.symm⟩

/-! ### What is left -/

/-- What is left of some values when others have been written: those at other places. -/
def leftover (left ws : List (Block × Value)) : List (Block × Value) :=
  left.filter fun w => ∀ c ∈ ws, valuePath w.1 ≠ valuePath c.1

theorem mem_leftover {left ws : List (Block × Value)} {w : Block × Value} :
    w ∈ leftover left ws ↔ w ∈ left ∧ ∀ c ∈ ws, valuePath w.1 ≠ valuePath c.1 := by
  rw [leftover, List.mem_filter, decide_eq_true_eq]

theorem leftover_append (left ws ws' : List (Block × Value)) :
    leftover left (ws ++ ws') = leftover (leftover left ws) ws' := by
  simp only [leftover, List.filter_filter, List.forall_mem_append, Bool.decide_and, Bool.and_comm]

theorem Held.footprint_writeAll {ws : List (Block × Value)} (hb : Held s b)
    (hws : ∀ w ∈ ws, Held s w.1) : footprint s b <+: footprint (s.writeAll ws) b := by
  induction ws generalizing s with
  | nil => exact List.prefix_refl _
  | cons w ws ih =>
    have hw := hws w List.mem_cons_self
    exact (hb.footprint_set hw w.2).trans
      (ih (hb.set hw w.2) fun c hc => (hws c (List.mem_cons_of_mem _ hc)).set hw w.2)

/-- Values written after others can as well be written first, if what they replace is left out. -/
theorem writeAll_writeAll {left ws : List (Block × Value)} (hleft : ∀ w ∈ left, Held s w.1)
    (hws : ∀ w ∈ ws, Held s w.1) :
    (s.writeAll left).writeAll ws = (s.writeAll ws).writeAll (leftover left ws) := by
  induction ws generalizing s left with
  | nil => simp [leftover]
  | cons c ws ih =>
    have hc := hws c List.mem_cons_self
    have hrest := List.forall_mem_of_forall_mem_cons hws
    rw [Scope.writeAll_cons, Scope.writeAll_cons, Scope.writeAll_set hleft hc,
      ih (fun w hw => (hleft w (List.mem_of_mem_filter hw)).set hc c.2)
        fun w hw => (hrest w hw).set hc c.2,
      ← List.singleton_append, leftover_append]
    simp [leftover]

/-! ### A run -/

theorem writes_cons (s : Scope) (b : Block) (bs : List Block) :
    writes input s (b :: bs) = writes input s [b] ++ writes input (resolve input s b).2 bs := by
  rw [writes, writes, writes, List.append_nil]

theorem held_writes {bs : List Block} (h : ∀ b ∈ bs, Held s b) :
    ∀ w ∈ writes input s bs, Held s w.1 :=
  fun w hw => h w.1 (mem_writes hw).1

/-- At its turn a parameter that does not see what is left is the same as without it. What it does
not write itself stays left. -/
theorem resolve_leftover {left : List (Block × Value)} (hleft : ∀ w ∈ left, Held s w.1)
    (hb : Held s b)
    (h : ∀ ref ∈ b.references, ∀ w ∈ left, Diverge (footprint s w.1) ref.path) :
    (resolve input (s.writeAll left) b).1 = (resolve input s b).1 ∧
      (resolve input (s.writeAll left) b).2 =
        (resolve input s b).2.writeAll (leftover left (writes input s [b])) := by
  obtain ⟨hfst, hwritten⟩ : (resolve input (s.writeAll left) b).1 = (resolve input s b).1 ∧
      written? input (s.writeAll left) b = written? input s b := resolve_writeAll hleft h
  have hwrites : writes input (s.writeAll left) [b] = writes input s [b] := by
    rw [writes, writes, hwritten]
    rfl
  have hsnd : ∀ t, (resolve input t b).2 = t.writeAll (writes input t [b]) :=
    fun t => resolveAll_snd t [b]
  refine ⟨hfst, ?_⟩
  rw [hsnd, hsnd, hwrites]
  exact writeAll_writeAll hleft (held_writes (by simpa using hb))

/-- A run that reads nothing left before writing it has the same results as without it, and leaves
what it does not write. -/
theorem resolveAll_leftover {left : List (Block × Value)} {bs : List Block}
    (hleft : ∀ w ∈ left, Held s w.1) (hbs : ∀ b ∈ bs, Held s b)
    (h : ∀ l b r, bs = l ++ b :: r → ∀ ref ∈ b.references, ∀ w ∈ leftover left (writes input s l),
      Diverge (footprint s w.1) ref.path) :
    (resolveAll input (s.writeAll left) bs).1 = (resolveAll input s bs).1 ∧
      (resolveAll input (s.writeAll left) bs).2 =
        (resolveAll input s bs).2.writeAll (leftover left (writes input s bs)) := by
  induction bs generalizing s left with
  | nil => simp [resolveAll, leftover, writes]
  | cons b bs ih =>
    have hb : Held s b := hbs b List.mem_cons_self
    have hturn : ∀ w ∈ writes input s [b], Held s w.1 := held_writes (by simpa using hb)
    have hafter : (resolve input s b).2 = s.writeAll (writes input s [b]) := resolveAll_snd s [b]
    obtain ⟨hfst, hsnd⟩ : (resolve input (s.writeAll left) b).1 = (resolve input s b).1 ∧ _ :=
      resolve_leftover hleft hb fun ref href w hw =>
        h [] b bs rfl ref href w (by simpa [leftover, writes] using hw)
    -- The rest starts from what the first block writes, with less left.
    have hleft' : ∀ w ∈ leftover left (writes input s [b]), Held (resolve input s b).2 w.1 := by
      intro w hw
      rw [hafter]
      exact (hleft w (mem_leftover.1 hw).1).writeAll hturn
    have hbs' : ∀ c ∈ bs, Held (resolve input s b).2 c := by
      intro c hc
      rw [hafter]
      exact (hbs c (List.mem_cons_of_mem b hc)).writeAll hturn
    obtain ⟨hparameters, hscope⟩ := ih hleft' hbs' fun l c r hl ref href w hw => by
      rw [← leftover_append, ← writes_cons] at hw
      have hdiv : Diverge (footprint s w.1) ref.path :=
        h (b :: l) c r (by rw [hl]; rfl) ref href w hw
      rw [hafter]
      exact hdiv.extend ((hleft w (mem_leftover.1 hw).1).footprint_writeAll hturn)
    rw [resolveAll_cons, resolveAll_cons, hsnd, hfst, hparameters, hscope, writes_cons s b bs,
      leftover_append]
    exact ⟨rfl, rfl⟩

end Parameter

open Parameter

/-! ### Modules -/

namespace Module

variable {first second : Input} {m : Module}

/-- Of the values that a run with the first input leaves, a run with the second one has replaced
those that show in a parameter by its turn, and those that show in a tag by the end. -/
structure Renews (first second : Input) (m : Module) : Prop where
  parameters : ∀ l p r, m.parameterBlocks = l ++ p :: r → ∀ ref ∈ p.references,
    ∀ w ∈ leftover (writes first m.scope m.parameterBlocks) (writes second m.scope l),
      Diverge (footprint m.scope w.1) ref.path
  tags : ∀ t ∈ m.blocksOf "data" tagsType, ∀ a, t.attribute? "tags" = some a →
    ∀ ref ∈ a.expression.references, ∀ w ∈ leftover (writes first m.scope m.parameterBlocks)
      (writes second m.scope m.parameterBlocks), Diverge (footprint m.scope w.1) ref.path

/-- The parameters and the tags of a module are the same after a run with another input. -/
theorem Renews.resolve_again (hm : ∀ p ∈ m.parameterBlocks, Held m.scope p)
    (h : m.Renews first second) :
    ((m.resolveParameters first).2.resolveParameters second).1 = (m.resolveParameters second).1 ∧
      ((m.resolveParameters first).2.resolveParameters second).2.resolveTags =
        (m.resolveParameters second).2.resolveTags := by
  let left := writes first m.scope m.parameterBlocks
  have hleft : ∀ w ∈ left, Held m.scope w.1 := held_writes hm
  have hscope : (m.resolveParameters first).2.scope = m.scope.writeAll left :=
    scope_resolveParameters m first
  have hblocks : (m.resolveParameters first).2.parameterBlocks = m.parameterBlocks := rfl
  obtain ⟨hparameters, hafter⟩ := resolveAll_leftover hleft hm h.parameters
  refine ⟨?_, ?_⟩
  · rw [resolveParameters, hscope, hblocks]
    exact hparameters
  · rw [resolveTags, resolveTags]
    refine List.map_congr_left fun t ht => ?_
    have hagain : ((m.resolveParameters first).2.resolveParameters second).2.scope =
        (m.resolveParameters second).2.scope.writeAll
          (leftover left (writes second m.scope m.parameterBlocks)) := by
      rw [resolveParameters, hscope, hblocks]
      exact hafter
    have hwritten : ∀ w ∈ writes second m.scope m.parameterBlocks, Held m.scope w.1 :=
      held_writes hm
    rw [hagain, scope_resolveParameters]
    refine (TagBlock.resolve_eq fun a ha ref href => ?_).symm
    refine .writeAll (fun w hw => ?_) fun w hw => ?_
    · exact (hleft w (mem_leftover.1 hw).1).writeAll hwritten
    · exact (h.tags t ht a ha ref href w hw).extend
        ((hleft w (mem_leftover.1 hw).1).footprint_writeAll hwritten)

end Module

namespace Builder

/-- An extraction after another one on the same modules has the result that it has on its own, if it
renews what shows of the values that the other one leaves. -/
theorem extract_again {bs : List Builder} {first second : Input}
    (hp : ∀ b ∈ bs, b.build.Placed) (h : ∀ b ∈ bs, b.build.Renews first second) :
    let modules := bs.map Builder.build
    (extract second (extract first modules).2).1 = (extract second modules).1 := by
  intro modules
  have hrun : ∀ m ∈ modules,
      ((m.resolveParameters first).2.resolveParameters second).1 = (m.resolveParameters second).1 ∧
        ((m.resolveParameters first).2.resolveParameters second).2.resolveTags =
          (m.resolveParameters second).2.resolveTags := by
    intro m hm
    obtain ⟨b, hb, rfl⟩ := List.mem_map.1 hm
    exact (h b hb).resolve_again fun p hpm => held (hp b hb) hpm
  have hmodules : (resolveParameters first modules).2 =
      modules.map fun m => (m.resolveParameters first).2 := List.map_map
  have hparameters : (resolveParameters second (resolveParameters first modules).2).1 =
      (resolveParameters second modules).1 := by
    rw [hmodules]
    simp only [resolveParameters, List.flatMap_map]
    exact List.flatMap_congr fun m hm => (hrun m hm).1
  have htags : resolveTags (resolveParameters second (resolveParameters first modules).2).2 =
      resolveTags (resolveParameters second modules).2 := by
    rw [hmodules]
    simp only [resolveParameters, resolveTags, List.map_map, List.flatMap_map]
    exact List.flatMap_congr fun m hm => (hrun m hm).2
  simp only [extract, hparameters, htags]

/-! ### A tag made of a parameter without a default -/

/-- A parameter `region` and a tag `zone` made of it. -/
def regionTag : Builder :=
  let here : Location := ⟨none, none⟩
  ⟨[], [
    ⟨⟨"data", ["coder_parameter", "region"], here⟩, [⟨"name", .string "region", here⟩], []⟩,
    ⟨⟨"data", ["coder_workspace_tags", "tags"], here⟩,
      [⟨"tags", .object [(.name "zone", Parameter.reference "region")], here⟩], []⟩], []⟩

/-- The scope of `regionTag`, where the tags are not known. -/
def regionTagScope : Scope :=
  ⟨[("var", .object []), ("local", .object []), ("data", .object [
    ("coder_parameter", .object [("region", .object [("name", .string "region")])]),
    ("coder_workspace_tags", .object [("tags", .object [("tags", .unknown)])])])],
    [["data", "coder_workspace_tags"]]⟩

theorem build_regionTag : regionTag.build = ⟨[], regionTag.declarations.map
    (Declaration.materialize regionTagScope), regionTagScope, true⟩ := build_eq_of_pass rfl rfl rfl

theorem placed_regionTag : regionTag.build.Placed :=
  placed_build (by simp [regionTag, parameterDeclarations]) (by simp [regionTag])

/-- If both inputs have a value for the parameter, the second one shows in the tag. -/
theorem extract_again_regionTag :
    let modules := [regionTag].map Builder.build
    let first : Input := [⟨"region", "eu"⟩]
    let second : Input := [⟨"region", "us"⟩]
    regionTag.build.Placed ∧ regionTag.build.Renews first second ∧
      (extract second (extract first modules).2).1.tags = [("zone", "us")] := by
  intro modules first second
  have hreferences : ∀ p ∈ regionTag.build.parameterBlocks, p.references = [] := by
    rw [build_regionTag]
    intro p hp
    obtain rfl := List.mem_singleton.1 hp
    rfl
  have hleftover : leftover (writes first regionTag.build.scope regionTag.build.parameterBlocks)
      (writes second regionTag.build.scope regionTag.build.parameterBlocks) = [] := by
    rw [build_regionTag]
    rfl
  have hrenews : regionTag.build.Renews first second := by
    refine ⟨fun l p r hp ref href => ?_, fun t _ a _ ref _ w hw => ?_⟩
    · rw [hreferences p (by simp [hp])] at href
      cases href
    · rw [hleftover] at hw
      cases hw
  have hagain : (extract second (extract first modules).2).1 = (extract second modules).1 :=
    extract_again (by simpa using placed_regionTag) (by simpa using hrenews)
  refine ⟨placed_regionTag, hrenews, ?_⟩
  have hmodules : modules = [_] := congrArg (fun m => [m]) build_regionTag
  rw [hagain, hmodules]
  rfl

/-- A value of the first input shows in the tag although the second input has none. -/
theorem not_extract_again :
    let modules := [regionTag].map Builder.build
    let first : Input := [⟨"region", "eu"⟩]
    regionTag.build.Placed ∧ (extract [] modules).1.tags = [] ∧
      (extract [] (extract first modules).2).1.tags = [("zone", "eu")] := by
  intro modules first
  have hmodules : modules = [_] := congrArg (fun m => [m]) build_regionTag
  rw [hmodules]
  exact ⟨placed_regionTag, rfl, rfl⟩

end Builder
end Preflight

import Preflight.Block
import Preflight.Proofs.Lookup

/-!
# What nested declarations stand for

The blocks nested in a block, said without the way in which they are computed.

* The members of a list are its items in order, each with its position, those of an object are its
  entries in order, each with its name. Nothing else has members (`Value.getElem?_members_iff`).
* A declaration that is not `dynamic` stands for one block in its place. A `dynamic` one stands for
  one block for each member of its `for_each`, in order, made from its content; without a label, a
  `for_each` or a content it stands for none (`StandsFor`).
* Everything inside is evaluated with the iterators of all dynamic blocks around it, the innermost
  first, then the locals of the outermost block, then the scope (`Scope.inside`).
* `Declaration.materialize_expands`: evaluating a block gives exactly what this says, and nothing of
  what the block held before has an influence.
-/

namespace Preflight

/-! ### Members and iterators -/

/-- The member at a place is the item there, with its position, or the entry there, with its name. -/
theorem Value.getElem?_members_iff {v key item : Value} {i : Nat} :
    v.members[i]? = some (key, item) ↔
      (∃ items, v = .list items ∧ key = .number (.int i) ∧ items[i]? = some item) ∨
        ∃ es name, v = .object es ∧ key = .string name ∧ es[i]? = some (name, item) := by
  cases v with
  | list items =>
    rw [members, List.getElem?_mapIdx, Option.map_eq_some_iff]
    constructor
    · rintro ⟨w, hw, ⟨⟩⟩
      exact Or.inl ⟨items, rfl, rfl, hw⟩
    · rintro (⟨_, ⟨⟩, rfl, h⟩ | ⟨_, _, ⟨⟩, -⟩)
      exact ⟨item, h, rfl⟩
  | object es =>
    rw [members, List.getElem?_map, Option.map_eq_some_iff]
    constructor
    · rintro ⟨⟨name, w⟩, hw, ⟨⟩⟩
      exact Or.inr ⟨es, name, rfl, rfl, hw⟩
    · rintro (⟨_, ⟨⟩, -⟩ | ⟨_, name, ⟨⟩, rfl, h⟩)
      exact ⟨(name, item), h, rfl⟩
  | _ => simp [members]

/-- What a block made from a dynamic one sees of a member: its position or key, and the value. -/
def memberObject (m : Value × Value) : Value := .object [("key", m.1), ("value", m.2)]

/-- The context inside some iterators, the innermost of which comes first. -/
def Scope.inside (s : Scope) (base iterators : Entries Value) : Context := ⟨s, iterators ++ base⟩

/-- Locals with some iterators put over them, the innermost of which comes first. -/
def Entries.under (base iterators : Entries Value) : Entries Value :=
  iterators.foldr (fun i locals => locals.insert i.1 i.2) base

theorem Entries.get?_under (base iterators : Entries Value) (name : String) :
    (base.under iterators).get? name = Entries.get? (iterators ++ base) name := by
  induction iterators with
  | nil => rfl
  | cons i iterators ih =>
    obtain ⟨k, v⟩ := i
    have hunder : base.under ((k, v) :: iterators) = (base.under iterators).insert k v := rfl
    rw [hunder, List.cons_append, get?_cons]
    by_cases hk : k = name
    · rw [hk, get?_insert_self, if_pos rfl]
    · rw [get?_insert_of_ne _ _ hk, ih, if_neg hk]

/-- Locals count by what their names find. -/
theorem Context.value_congr_locals {s : Scope} {locals locals' : Entries Value}
    (h : ∀ name, locals.get? name = locals'.get? name) (e : Expr) :
    (Context.mk s locals).value e = (Context.mk s locals').value e := by
  apply value_congr
  intro r _
  simp only [lookup, root?, h]

/-- Putting iterators over locals one after another makes the innermost win. -/
theorem Context.value_under (s : Scope) (base iterators : Entries Value) (e : Expr) :
    (Context.mk s (base.under iterators)).value e = (s.inside base iterators).value e :=
  value_congr_locals (base.get?_under iterators) e

theorem Assignment.evaluate_under (s : Scope) (base iterators : Entries Value) :
    Assignment.evaluate ⟨s, base.under iterators⟩ =
      Assignment.evaluate (s.inside base iterators) := by
  funext a
  rw [evaluate, evaluate, Context.value_under]

/-! ### The blocks that declarations stand for -/

/-- The content of a dynamic block. -/
def Declaration.content? (d : Declaration) : Option Declaration :=
  d.nested.find? fun n => n.heading.kind = "content"

/-- The labels of a block made from a dynamic one: the strings in its `labels`, if it has any. -/
def Declaration.madeLabels (c : Context) (d : Declaration) : List String :=
  match d.assignment? "labels" with
  | some a => (c.value a.expression).stringItems
  | none => []

/-- The iterator of a block made from a dynamic one. -/
def Declaration.iteration (d : Declaration) (kind : String) (m : Value × Value) : String × Value :=
  (d.iterator kind, memberObject m)

/-- The heading of a block made from a dynamic one. -/
def Declaration.madeHeading (c : Context) (d : Declaration) (kind : String) : Heading :=
  ⟨kind, d.madeLabels c, d.heading.location⟩

mutual
/-- A block is what a declaration holds, evaluated under a heading inside some iterators. -/
inductive Expands (s : Scope) (base : Entries Value) :
    Entries Value → Heading → Declaration → Block → Prop
  | intro {iterators : Entries Value} {heading : Heading} {d : Declaration} {blocks : List Block}
    (hnested : StandFor s base iterators d.nested blocks) :
    Expands s base iterators heading d
      ⟨heading, d.assignments.map (Assignment.evaluate (s.inside base iterators)), blocks, d.nested,
        base.under iterators⟩

/-- A nested declaration stands for some blocks. -/
inductive StandsFor (s : Scope) (base : Entries Value) :
    Entries Value → Declaration → List Block → Prop
  | static {iterators : Entries Value} {d : Declaration} {b : Block}
    (hkind : d.heading.kind ≠ "dynamic") (h : Expands s base iterators d.heading d b) :
    StandsFor s base iterators d [b]
  | dynamic {iterators : Entries Value} {d content : Declaration} {kind : String}
    {labels : List String} {forEach : Assignment} {blocks : List Block}
    (hkind : d.heading.kind = "dynamic") (hlabels : d.heading.labels = kind :: labels)
    (hforEach : d.assignment? "for_each" = some forEach) (hcontent : d.content? = some content)
    (h : MadeFrom s base iterators d kind content
      ((s.inside base iterators).value forEach.expression).members blocks) :
    StandsFor s base iterators d blocks
  | incomplete {iterators : Entries Value} {d : Declaration} (hkind : d.heading.kind = "dynamic")
    (h : d.heading.labels = [] ∨ d.assignment? "for_each" = none ∨ d.content? = none) :
    StandsFor s base iterators d []

/-- Nested declarations stand for some blocks, in order. -/
inductive StandFor (s : Scope) (base : Entries Value) :
    Entries Value → List Declaration → List Block → Prop
  | nil {iterators : Entries Value} : StandFor s base iterators [] []
  | cons {iterators : Entries Value} {d : Declaration} {ds : List Declaration}
    {blocks rest : List Block} (h : StandsFor s base iterators d blocks)
    (hrest : StandFor s base iterators ds rest) :
    StandFor s base iterators (d :: ds) (blocks ++ rest)

/-- Blocks are made from the content of a dynamic block, one for each member of a collection. -/
inductive MadeFrom (s : Scope) (base : Entries Value) : Entries Value → Declaration → String →
    Declaration → List (Value × Value) → List Block → Prop
  | nil {iterators : Entries Value} {d content : Declaration} {kind : String} :
    MadeFrom s base iterators d kind content [] []
  | cons {iterators : Entries Value} {d content : Declaration} {kind : String} {m : Value × Value}
    {ms : List (Value × Value)} {b : Block} {rest : List Block}
    (h : Expands s base (d.iteration kind m :: iterators)
      (d.madeHeading (s.inside base (d.iteration kind m :: iterators)) kind) content b)
    (hrest : MadeFrom s base iterators d kind content ms rest) :
    MadeFrom s base iterators d kind content (m :: ms) (b :: rest)
end

/-! ### How they are computed -/

section Expansion

variable {s : Scope} {base : Entries Value}

/-- The block to be made for a member, inside some iterators. -/
def Declaration.madeInstance (s : Scope) (base iterators : Entries Value) (d : Declaration)
    (kind : String) (m : Value × Value) : Instance :=
  ⟨d.madeHeading (s.inside base (d.iteration kind m :: iterators)) kind,
    base.under (d.iteration kind m :: iterators)⟩

theorem Declaration.instances_under {d : Declaration} {kind : String} {labels : List String}
    {forEach : Assignment} (hlabels : d.heading.labels = kind :: labels)
    (hforEach : d.assignment? "for_each" = some forEach) (iterators : Entries Value) :
    d.instances s (base.under iterators) =
      (((s.inside base iterators).value forEach.expression).members).map
        (d.madeInstance s base iterators kind) := by
  rw [instances, hlabels, hforEach]
  simp only [Context.value_under]
  apply List.map_congr_left
  intro m _
  have hunder : (base.under iterators).insert (d.iterator kind) (.object [("key", m.1), ("value", m.2)]) =
      base.under (d.iteration kind m :: iterators) := rfl
  simp only [hunder, Context.value_under]
  rfl

theorem expandContent_nil (s : Scope) (ds : List Declaration) : expandContent s [] ds = [] := by
  induction ds with
  | nil => rfl
  | cons d ds ih =>
    rw [expandContent, ih]
    simp

theorem expandContent_of_no_content {ds : List Declaration}
    (h : ds.find? (fun n => n.heading.kind = "content") = none) (is : List Instance) :
    expandContent s is ds = [] := by
  induction ds with
  | nil => rfl
  | cons d ds ih =>
    rw [List.find?_cons] at h
    split at h
    · cases h
    · rename_i hd
      rw [expandContent, if_neg (by simpa using hd), ih h]

/-- Without a label, a `for_each` or a content there is nothing to make. -/
theorem expandContent_incomplete {d : Declaration}
    (h : d.heading.labels = [] ∨ d.assignment? "for_each" = none ∨ d.content? = none)
    (locals : Entries Value) : expandContent s (d.instances s locals) d.nested = [] := by
  rcases h with h | h | h
  · rw [Declaration.instances, h]
    exact expandContent_nil s d.nested
  · have hinstances : d.instances s locals = [] := by
      rw [Declaration.instances, h]
      cases d.heading.labels <;> rfl
    rw [hinstances, expandContent_nil]
  · exact expandContent_of_no_content h _

/-- Making blocks from a content is expanding it for each member. -/
theorem madeFrom_iff {content : Declaration} (h : ∀ iterators heading b,
      Expands s base iterators heading content b ↔
        b = content.instantiate s ⟨heading, base.under iterators⟩)
    {iterators : Entries Value} {d : Declaration} {kind : String} {ms : List (Value × Value)}
    {blocks : List Block} : MadeFrom s base iterators d kind content ms blocks ↔
      blocks = (ms.map (d.madeInstance s base iterators kind)).map fun i => content.instantiate s i := by
  induction ms generalizing blocks with
  | nil =>
    constructor
    · rintro ⟨⟩
      rfl
    · rintro rfl
      exact .nil
  | cons m ms ih =>
    constructor
    · rintro (_ | ⟨hb, hrest⟩)
      rw [(h _ _ _).1 hb, ih.1 hrest]
      rfl
    · rintro rfl
      exact .cons ((h _ _ _).2 rfl) (ih.2 rfl)

mutual
theorem expands_iff : (d : Declaration) → ∀ iterators heading b,
    Expands s base iterators heading d b ↔
      b = d.instantiate s ⟨heading, base.under iterators⟩
  | ⟨heading', assignments, nested⟩ => by
    intro iterators heading b
    rw [Declaration.instantiate, Assignment.evaluate_under]
    constructor
    · rintro ⟨hnested⟩
      rw [(standFor_iff nested iterators _).1 hnested]
    · rintro rfl
      exact .intro ((standFor_iff nested iterators _).2 rfl)

theorem standsFor_iff : (d : Declaration) → ∀ iterators blocks,
    StandsFor s base iterators d blocks ↔ blocks = d.expand s (base.under iterators)
  | ⟨heading, assignments, nested⟩ => by
    intro iterators blocks
    rw [Declaration.expand]
    by_cases hkind : heading.kind = "dynamic"
    · rw [if_pos hkind]
      constructor
      · intro h
        cases h with
        | static hstatic _ => exact absurd hkind hstatic
        | dynamic _ hlabels hforEach hcontent hmade =>
          rw [Declaration.instances_under hlabels hforEach]
          exact (madeFrom_content_iff nested _ hcontent iterators _ _ _ _).1 hmade
        | incomplete _ h => exact (expandContent_incomplete h _).symm
      · rintro rfl
        cases hlabels : heading.labels with
        | nil =>
          rw [expandContent_incomplete (Or.inl hlabels)]
          exact .incomplete hkind (Or.inl hlabels)
        | cons kind labels =>
          cases hforEach : Declaration.assignment? ⟨heading, assignments, nested⟩ "for_each" with
          | none =>
            rw [expandContent_incomplete (Or.inr (Or.inl hforEach))]
            exact .incomplete hkind (Or.inr (Or.inl hforEach))
          | some forEach =>
            cases hcontent : Declaration.content? ⟨heading, assignments, nested⟩ with
            | none =>
              rw [expandContent_incomplete (Or.inr (Or.inr hcontent))]
              exact .incomplete hkind (Or.inr (Or.inr hcontent))
            | some content =>
              rw [Declaration.instances_under hlabels hforEach]
              exact .dynamic hkind hlabels hforEach hcontent
                ((madeFrom_content_iff nested content hcontent iterators _ _ _ _).2 rfl)
    · rw [if_neg hkind, Assignment.evaluate_under]
      constructor
      · intro h
        cases h with
        | static _ h =>
          obtain ⟨hnested⟩ := h
          rw [(standFor_iff nested iterators _).1 hnested]
        | dynamic hdynamic => exact absurd hdynamic hkind
        | incomplete hdynamic => exact absurd hdynamic hkind
      · rintro rfl
        exact .static hkind (.intro ((standFor_iff nested iterators _).2 rfl))

theorem standFor_iff : (ds : List Declaration) → ∀ iterators blocks,
    StandFor s base iterators ds blocks ↔ blocks = expandNested s (base.under iterators) ds
  | [] => by
    intro iterators blocks
    constructor
    · rintro ⟨⟩
      rfl
    · rintro rfl
      exact .nil
  | d :: ds => by
    intro iterators blocks
    rw [expandNested]
    constructor
    · rintro (_ | ⟨h, hrest⟩)
      rw [(standsFor_iff d iterators _).1 h, (standFor_iff ds iterators _).1 hrest]
    · rintro rfl
      exact .cons ((standsFor_iff d iterators _).2 rfl) ((standFor_iff ds iterators _).2 rfl)

/-- The blocks made from the first content among some declarations. -/
theorem madeFrom_content_iff : (ds : List Declaration) → ∀ content,
    ds.find? (fun n => n.heading.kind = "content") = some content →
    ∀ iterators d kind ms blocks, MadeFrom s base iterators d kind content ms blocks ↔
      blocks = expandContent s (ms.map (d.madeInstance s base iterators kind)) ds
  | [] => by
    intro content h
    cases h
  | n :: ds => by
    intro content h iterators d kind ms blocks
    rw [expandContent]
    rw [List.find?_cons] at h
    split at h
    · rename_i hn
      cases h
      rw [if_pos (by simpa using hn)]
      exact madeFrom_iff (expands_iff n)
    · rename_i hn
      rw [if_neg (by simpa using hn)]
      exact madeFrom_content_iff ds content h iterators d kind ms blocks
end

end Expansion

/-! ### Blocks at the root of a module -/

namespace Declaration

/-- A declaration at the root of a module as a block that holds some values and some expanded blocks;
before anything is evaluated all values are unknown and there are no blocks. -/
def blockWith (values : Assignment → Value) (blocks : List Block) (d : Declaration) : Block :=
  ⟨d.heading, d.assignments.map fun a => ⟨a.name, a.expression, values a, a.location⟩, blocks,
    d.nested, d.rootLocals⟩

theorem materialize_eq_blockWith (s : Scope) (d : Declaration) : d.materialize s =
    d.blockWith (fun a => (Context.mk s d.rootLocals).value a.expression)
      (expandNested s d.rootLocals d.nested) := by
  rw [materialize, blockWith]
  cases d with
  | mk heading assignments nested =>
    rw [instantiate]
    rfl

/-- Nothing of what a block holds has an influence on it when it is evaluated again. -/
theorem materialize_blockWith (values : Assignment → Value) (blocks : List Block) (d : Declaration)
    (s : Scope) : (d.blockWith values blocks).materialize s = d.materialize s := by
  rw [materialize_eq_blockWith, Block.materialize, blockWith, blockWith, List.map_map]
  rfl

/-- A declaration at the root of a module, evaluated in a scope, is the block that it expands to, in
which every nested declaration stands for its blocks in their place. Whatever a block of the
declaration held before, evaluating it gives the same, and so does evaluating it in one scope after
another. -/
theorem materialize_expands (d : Declaration) :
    (∀ s b, b = d.materialize s ↔ Expands s d.rootLocals [] d.heading d b) ∧
    (∀ values blocks s, (d.blockWith values blocks).materialize s = d.materialize s) ∧
    ∀ s₁ s₂, (d.materialize s₁).materialize s₂ = d.materialize s₂ := by
  refine ⟨fun s b => (expands_iff d [] d.heading b).symm, fun values blocks s =>
    d.materialize_blockWith values blocks s, fun s₁ s₂ => ?_⟩
  rw [d.materialize_eq_blockWith s₁]
  exact d.materialize_blockWith _ _ s₂

/-- The zones of two regions: a dynamic block in a dynamic one, with iterators of one name. -/
def zones : Declaration :=
  let here : Location := ⟨none, none⟩
  let option (part : String) : Expr := .traversal (.variable "option") [.field part]
  let dynamic (forEach : Expr) (content : Declaration) : Declaration :=
    ⟨⟨"dynamic", ["option"], here⟩, [⟨"for_each", forEach, here⟩], [content]⟩
  let zone : Declaration := ⟨⟨"content", [], here⟩,
    [⟨"position", option "key", here⟩, ⟨"name", option "value", here⟩], []⟩
  let region : Declaration := ⟨⟨"content", [], here⟩,
    [⟨"name", option "key", here⟩], [dynamic (option "value") zone]⟩
  ⟨⟨"data", ["coder_parameter", "zone"], here⟩, [], [dynamic (.object
    [(.name "eu", .array [.string "a", .string "b"]), (.name "us", .array [])]) region]⟩

/-- There is a block for each region with its name, and in it one for each zone with its position. The
iterator of the inner block hides the one around it, but for its own `for_each`. -/
theorem materialize_expands_zones :
    ∃ b, Expands .empty [] [] zones.heading zones b ∧
      (b.blocks.map fun region => (region.attributes.map Attribute.value,
        region.blocks.map fun zone => zone.attributes.map Attribute.value)) =
        [([.string "eu"], [[.number (.int 0), .string "a"], [.number (.int 1), .string "b"]]),
          ([.string "us"], [])] ∧
      ∀ s, (zones.materialize s).materialize .empty = b := by
  obtain ⟨hexpands, -, hagain⟩ := materialize_expands zones
  exact ⟨zones.materialize .empty, (hexpands .empty _).1 rfl, rfl, fun s => hagain s .empty⟩

end Declaration
end Preflight

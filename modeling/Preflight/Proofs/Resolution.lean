import Mathlib.Data.List.Forall2
import Preflight.Proofs.WriteBack
import Preflight.Tag

/-!
# Settled answers stay

Two runs resolve the parameters and then the tags of the same blocks, the second one in a scope in
which unknown parts have become known. As long as no declared type turns from unknown into null, all
that the first run knows of a parameter or a tag, errors included, holds in the second.
-/

namespace Preflight

/-! ### Evaluated blocks -/

namespace Context

variable {gone : List String} {s s' : Scope}

theorem settles_of_scope (h : s.Settles gone s') (locals : Entries Value) :
    Settles gone ⟨s, locals⟩ ⟨s', locals⟩ :=
  ⟨h, fun _ => rel_of_eq (Value.settles_refl gone) rfl⟩

/-- The value of an expression is unknown at first, or it stays. -/
theorem Settles.value {c c' : Context} (h : c.Settles gone c') (e : Expr) :
    c.value e = .unknown ∨ c'.value e = c.value e := by
  rcases h.evaluate e with hu | hs
  · left
    rw [Context.value, hu]
  · exact Or.inr (value_eq_of_sameResult hs).symm

end Context

namespace Block

theorem attribute?_materialize (b : Block) (s : Scope) (name : String) :
    (b.materialize s).attribute? name =
      (b.attribute? name).map fun a => { a with value := (b.context s).value a.expression } := by
  rw [attribute?, attribute?, materialize, List.find?_map]
  rfl

/-- The value of an attribute does not turn from unknown into null. -/
def Stays (b : Block) (name : String) (s s' : Scope) : Prop :=
  ∀ a, b.attribute? name = some a → (b.context s).value a.expression = .unknown →
    (b.context s').value a.expression ≠ .null

/-- The expression of an attribute that is not null is the same in both evaluations, unless its value
turns from unknown into null. -/
theorem presentAttribute?_materialize {gone : List String} {s s' : Scope} (h : s.Settles gone s')
    {b : Block} {name : String} (hn : b.Stays name s s') :
    ((b.materialize s).presentAttribute? name).map Attribute.expression =
      ((b.materialize s').presentAttribute? name).map Attribute.expression := by
  rw [presentAttribute?, presentAttribute?, attribute?_materialize, attribute?_materialize]
  cases ha : b.attribute? name with
  | none => rfl
  | some a =>
    -- Null counts as missing, so it must be null in both runs or in none.
    have hnull : ((b.context s).value a.expression).isNull =
        ((b.context s').value a.expression).isNull := by
      rcases (Context.settles_of_scope h b.locals).value a.expression with hu | hs
      · have hn := hn a ha hu
        rw [show (b.context s).value a.expression = .unknown from hu]
        cases hv : (b.context s').value a.expression <;> first | rfl | exact absurd hv hn
      · exact congrArg Value.isNull hs.symm
    simp only [Option.map_some, Option.filter_some, hnull]
    split <;> rfl

end Block

/-! ### Parameters -/

theorem ParameterValue.Settles.refl (p : ParameterValue) : p.Settles p := by
  cases p with
  | errored reasons => exact ⟨reasons, rfl⟩
  | unknown => trivial
  | _ => rfl

theorem ParameterValue.Settles.ofValue {v w : Value} (h : v = .unknown ∨ w = v) :
    (ParameterValue.ofValue v).Settles (.ofValue w) := by
  rcases h with rfl | rfl
  · trivial
  · exact .refl _

namespace Parameter

/-- The value of a parameter comes from its default. -/
structure TakesDefault (input : Input) (b : Block) : Prop where
  noValue : b.attribute? "value" = none
  notSupplied : input.value? b.heading.nameLabel = none
  default : b.attribute? "default" ≠ none

/-- Parameters are resolved in two scopes, and the type of none that takes its default turns from
unknown into null. -/
def TypesStay (input : Input) : Scope → Scope → List Block → Prop
  | _, _, [] => True
  | s, s', b :: bs =>
    (TakesDefault input b → b.Stays "type" s s') ∧
      TypesStay input (resolve input s b).2 (resolve input s' b).2 bs

/-- A default that is unknown at first does not give a known value. -/
theorem convertDefault_unknown (b : Block) (a : Attribute) :
    convertDefault b a .unknown = .unknown ∨
      ∃ reasons, convertDefault b a .unknown = .errored reasons := by
  rw [convertDefault]
  cases b.presentAttribute? "type" with
  | none => exact Or.inl rfl
  | some type =>
    simp only
    cases TypeSpec.decode type.expression with
    | error err => exact Or.inr ⟨_, rfl⟩
    | ok spec =>
      simp only [spec.applyDefaults_unknown, spec.convert_unknown]
      exact Or.inl rfl

theorem convertDefault_settles {b b' : Block} (a a' : Attribute)
    (ht : (b.presentAttribute? "type").map Attribute.expression =
      (b'.presentAttribute? "type").map Attribute.expression)
    {v w : Value} (h : v = .unknown ∨ w = v) :
    (convertDefault b a v).Settles (convertDefault b' a' w) := by
  rw [convertDefault, convertDefault]
  cases hb : b.presentAttribute? "type" with
  | none =>
    cases hb' : b'.presentAttribute? "type" with
    | none => exact .ofValue h
    | some type' => simp [hb, hb'] at ht
  | some type =>
    cases hb' : b'.presentAttribute? "type" with
    | none => simp [hb, hb'] at ht
    | some type' =>
      have htype : type.expression = type'.expression := by simpa [hb, hb'] using ht
      simp only [htype]
      cases TypeSpec.decode type'.expression with
      | error err => exact ⟨_, rfl⟩
      | ok spec =>
        rcases h with rfl | rfl
        · simp only [spec.applyDefaults_unknown, spec.convert_unknown]
          trivial
        · simp only
          cases spec.convert (spec.applyDefaults w) with
          | ok u => exact .refl _
          | error err => exact ⟨_, rfl⟩

section Resolve

variable {s s' : Scope} {b : Block}

theorem resolveValue_settles {gone : List String} (h : s.Settles gone s') {input : Input}
    (hv : b.attribute? "value" = none) (ht : TakesDefault input b → b.Stays "type" s s') :
    (resolveValue (b.materialize s) s input).Settles (resolveValue (b.materialize s') s' input) := by
  rw [resolveValue, resolveValue, Block.attribute?_materialize, Block.attribute?_materialize]
  simp only [show ∀ s, (b.materialize s).heading = b.heading from fun _ => rfl]
  cases hi : input.value? b.heading.nameLabel with
  | some supplied => rfl
  | none =>
    cases hd : b.attribute? "default" with
    | none => rfl
    | some a =>
      have htype := Block.presentAttribute?_materialize h (ht ⟨hv, hi, by simp [hd]⟩)
      simp only [Option.map_some]
      have hx := (Context.settles_of_scope h b.locals).evaluate a.expression
      generalize hc : (Context.mk s b.locals).evaluate a.expression = x at hx
      generalize hc' : (Context.mk s' b.locals).evaluate a.expression = y at hx
      rw [show ((b.materialize s).context s).evaluate a.expression = x from hc,
        show ((b.materialize s').context s').evaluate a.expression = y from hc']
      rcases hx with rfl | hx
      · cases y with
        | ok w => exact convertDefault_settles _ _ htype (Or.inl rfl)
        | error err =>
          -- The default fails in the second run only: in the first it is unknown, or its type is no type.
          rcases convertDefault_unknown (b.materialize s)
            { a with value := (b.context s).value a.expression } with hu | ⟨reason, hr⟩
          · simp only [hu]
            trivial
          · simp only [hr]
            exact ⟨_, rfl⟩
      · cases hx with
        | value v => exact convertDefault_settles _ _ htype (Or.inr rfl)
        | undefined name => exact ⟨_, rfl⟩
        | failure f g => exact ⟨_, rfl⟩

/-- Where the value of a block is written there is an object. -/
def HasObject (s : Scope) (b : Block) : Prop :=
  ∃ es, s.getPath? (b.heading.kind :: b.heading.labels) = some (.object es)

theorem resolve_settles (h : s.Settles ["value"] s') (hobj : HasObject s b) {input : Input}
    (ht : TakesDefault input b → b.Stays "type" s s') :
    (resolve input s b).1.value.Settles (resolve input s' b).1.value ∧
      (resolve input s b).2.Settles ["value"] (resolve input s' b).2 := by
  obtain ⟨es, hobj⟩ := hobj
  simp only [resolve, Block.attribute?_materialize]
  cases hn : b.attribute? "value" with
  | some a => exact ⟨.ofValue ((Context.settles_of_scope h b.locals).value a.expression), h⟩
  | none =>
    have hv := resolveValue_settles h hn ht
    exact ⟨hv, h.writeBack rfl hobj hv⟩

theorem HasObject.resolve {c : Block} (h : HasObject s c) (hl : c.heading.labels.length ≤
    b.heading.labels.length) (input : Input) : HasObject (Parameter.resolve input s b).2 c := by
  obtain ⟨es, hes⟩ := h
  simp only [Parameter.resolve]
  cases (b.materialize s).attribute? "value" with
  | some a => exact ⟨es, hes⟩
  | none =>
    simp only [writeBack]
    cases (resolveValue (b.materialize s) s input).written? with
    | some v =>
      exact Scope.exists_object_set (p := b.heading.kind :: b.heading.labels) hes (by simp)
        (Nat.succ_le_succ hl) v
    | none => exact ⟨es, hes⟩

end Resolve

/-- What is known of parameters stays, position by position, and scopes stay settled. -/
theorem resolveAll_settles {s s' : Scope} (h : s.Settles ["value"] s') {bs : List Block}
    (hobj : ∀ b ∈ bs, HasObject s b) (hl : ∀ b ∈ bs, b.heading.labels.length = 2) {input : Input}
    (ht : TypesStay input s s' bs) :
    List.Forall₂ (fun p q => p.value.Settles q.value) (resolveAll input s bs).1
        (resolveAll input s' bs).1 ∧
      (resolveAll input s bs).2.Settles ["value"] (resolveAll input s' bs).2 := by
  induction bs generalizing s s' with
  | nil => exact ⟨.nil, h⟩
  | cons b bs ih =>
    obtain ⟨htb, htbs⟩ := ht
    obtain ⟨hv, hs⟩ := resolve_settles h (hobj b List.mem_cons_self) htb
    have hobj' : ∀ c ∈ bs, HasObject (resolve input s b).2 c := fun c hc =>
      (hobj c (List.mem_cons_of_mem _ hc)).resolve (by
        rw [hl c (List.mem_cons_of_mem _ hc), hl b List.mem_cons_self]) input
    obtain ⟨hvs, hlast⟩ := ih hs hobj' (fun c hc => hl c (List.mem_cons_of_mem _ hc)) htbs
    exact ⟨.cons hv hvs, hlast⟩

end Parameter

/-! ### Tags -/

/-- What a side of a tag can be in a second run: the same unless it is unknown. -/
def TagValue.Settles : TagValue → TagValue → Prop
  | .known text, w => w = .known text
  | .unknown, _ => True
  | .errored, w => w = .errored

theorem TagValue.Settles.refl (v : TagValue) : v.Settles v := by
  cases v with
  | unknown => trivial
  | _ => rfl

/-- Both sides settle. -/
def Tag.Settles (t u : Tag) : Prop :=
  t.key.value.Settles u.key.value ∧ t.value.value.Settles u.value.value

/-- The tags settle in turn, and the block is errored in both runs or in none. -/
def TagBlock.Settles (b c : TagBlock) : Prop :=
  List.Forall₂ Tag.Settles b.tags c.tags ∧ b.errored = c.errored

namespace TagSite

variable {gone : List String} {c c' : Context} (h : c.Settles gone c') (location : Location)
  (address : String)
include h

theorem evaluate_settles (e : Expr) :
    (TagSite.evaluate ⟨c, location, address⟩ e).value.Settles
      (TagSite.evaluate ⟨c', location, address⟩ e).value := by
  have hx := h.evaluate e
  simp only [TagSite.evaluate]
  generalize c.evaluate e = x at hx ⊢
  generalize c'.evaluate e = y at hx ⊢
  rcases hx with rfl | hx
  · trivial
  · cases hx with
    | value v => exact .refl _
    | undefined name => exact .refl _
    | failure f g => rfl

theorem side_settles (e : Expr) :
    (TagSite.side ⟨c, location, address⟩ e).value.value.Settles
      (TagSite.side ⟨c', location, address⟩ e).value.value := by
  simp only [side, TagSite.value]
  cases TagPolicy.entry e with
  | nil => exact evaluate_settles h location address e
  | cons reason reasons => exact .refl _

theorem tag_settles (entry : Key × Expr) :
    (TagSite.tag ⟨c, location, address⟩ entry).value.Settles
      (TagSite.tag ⟨c', location, address⟩ entry).value := by
  obtain ⟨k, e⟩ := entry
  refine ⟨?_, side_settles h location address e⟩
  cases k with
  | name n => exact .refl _
  | expr e => exact side_settles h location address e

end TagSite

theorem TagBlock.resolve_settles {gone : List String} {s s' : Scope} (h : s.Settles gone s')
    (b : Block) : (TagBlock.resolve s b).Settles (TagBlock.resolve s' b) := by
  rw [TagBlock.resolve, TagBlock.resolve]
  cases b.presentAttribute? "tags" with
  | none => exact ⟨.nil, rfl⟩
  | some a =>
    simp only
    cases TagPolicy.tags a.expression with
    | error reason => exact ⟨.nil, rfl⟩
    | ok items =>
      refine ⟨?_, rfl⟩
      simp only [List.map_map, List.forall₂_map_left_iff, List.forall₂_map_right_iff,
        List.forall₂_same]
      exact fun entry _ =>
        TagSite.tag_settles (Context.settles_of_scope h b.locals) a.location b.address entry

end Preflight

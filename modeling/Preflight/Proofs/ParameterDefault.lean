import Preflight.Proofs.Accounting
import Preflight.Proofs.Defaults
import Preflight.Proofs.SuppliedValue

/-!
# The value of a parameter by its default

A parameter that sets no value itself, and for which none is supplied, takes its default.

* A default fails if it has no value, if the declared type is no type, or if it does not convert to
  that type (`Block.DefaultFails`). Otherwise it gives a value, converted to the declared type if
  there is one (`Block.DefaultGives`).
* `Parameter.DefaultOutcome` says what the value of the parameter is in each case. A failure is one
  warning, at the head of what is reported of the parameter.
* `Parameter.resolve_default`: this holds of every block. Whether a parameter has errors, and all of
  it but its value and the texts of type and default, is settled without the two expressions.
-/

namespace Preflight

/-! ### Defaults that fail and defaults that give a value -/

namespace Block

/-- The expression of the type that a block declares; a type that is null in the scope is none. -/
def declaredType? (s : Scope) (b : Block) : Option Expr :=
  ((b.attribute? "type").filter fun a => !((b.context s).value a.expression).isNull).map
    Attribute.expression

/-- The default of a block fails. -/
inductive DefaultFails (s : Scope) (b : Block) (default : Expr) : Prop
  | evaluation {err : EvalError} (h : (b.context s).evaluate default = .error err)
  | type {e : Expr} {err : TypeError} (ht : b.declaredType? s = some e)
    (hd : TypeSpec.decode e = .error err)
  | conversion {v : Value} {e : Expr} {type : TypeSpec} {err : ConversionError}
    (hv : (b.context s).evaluate default = .ok v) (ht : b.declaredType? s = some e)
    (hd : TypeSpec.decode e = .ok type)
    (hc : type.convert (type.applyDefaults v) = .error err)

/-- The default of a block gives a value. -/
inductive DefaultGives (s : Scope) (b : Block) (default : Expr) : Value → Prop
  | untyped {v : Value} (hv : (b.context s).evaluate default = .ok v)
    (ht : b.declaredType? s = none) : DefaultGives s b default v
  | typed {v w : Value} {e : Expr} {type : TypeSpec}
    (hv : (b.context s).evaluate default = .ok v) (ht : b.declaredType? s = some e)
    (hd : TypeSpec.decode e = .ok type) (hc : type.convert (type.applyDefaults v) = .ok w) :
    DefaultGives s b default w

variable {s : Scope} {b : Block} {default : Expr}

/-- The type that an evaluated block shows is the one that it declares in the scope. -/
theorem expression_presentAttribute?_type (s : Scope) (b : Block) :
    ((b.materialize s).presentAttribute? "type").map Attribute.expression = b.declaredType? s := by
  rw [presentAttribute?, attribute?_materialize, declaredType?]
  cases b.attribute? "type" with
  | none => rfl
  | some a =>
    simp only [Option.map_some, Option.filter_some]
    split <;> rfl

/-- A default that fails gives no value. -/
theorem DefaultFails.not_gives (h : b.DefaultFails s default) (w : Value) :
    ¬ b.DefaultGives s default w := by
  intro hg
  have hok : ∃ v, (b.context s).evaluate default = .ok v := by
    cases hg with
    | untyped hv => exact ⟨_, hv⟩
    | typed hv => exact ⟨_, hv⟩
  obtain ⟨v, hv⟩ := hok
  cases h with
  | evaluation herr =>
    rw [hv] at herr
    cases herr
  | type ht hd =>
    cases hg with
    | untyped _ hnone => cases hnone.symm.trans ht
    | typed _ ht' hd' _ =>
      cases ht.symm.trans ht'
      cases hd.symm.trans hd'
  | conversion hv ht hd hc =>
    cases hg with
    | untyped _ hnone => cases hnone.symm.trans ht
    | typed hv' ht' hd' hc' =>
      cases hv.symm.trans hv'
      cases ht.symm.trans ht'
      cases hd.symm.trans hd'
      cases hc.symm.trans hc'

/-- A default gives one value. -/
theorem DefaultGives.unique {v w : Value} (h : b.DefaultGives s default v)
    (h' : b.DefaultGives s default w) : v = w := by
  cases h with
  | untyped hv ht =>
    cases h' with
    | untyped hv' _ => exact Except.ok.inj (hv.symm.trans hv')
    | typed _ ht' => cases ht.symm.trans ht'
  | typed hv ht hd hc =>
    cases h' with
    | untyped _ ht' => cases ht'.symm.trans ht
    | typed hv' ht' hd' hc' =>
      cases hv.symm.trans hv'
      cases ht.symm.trans ht'
      cases hd.symm.trans hd'
      exact Except.ok.inj (hc.symm.trans hc')

/-- What a default gives under a declared type is of that type, and stays when it is converted. -/
theorem DefaultGives.convert_eq {w : Value} (h : b.DefaultGives s default w) {e : Expr}
    {type : TypeSpec} (ht : b.declaredType? s = some e) (hd : TypeSpec.decode e = .ok type) :
    type.convert w = .ok w := by
  cases h with
  | untyped _ hnone => cases hnone.symm.trans ht
  | typed _ ht' hd' hc =>
    cases ht.symm.trans ht'
    cases hd.symm.trans hd'
    have hdistinct : type.Distinct := (TypeSpec.sound_of_decode hd).distinct
    exact TypeSpec.convert_of_conforms hdistinct (TypeSpec.conforms_of_convert hdistinct hc)

end Block

/-! ### The value that comes of it -/

namespace ParameterValue

/-- A value that is errored is so for one reason, which is a warning. -/
def WarnsOnce (p : ParameterValue) : Prop :=
  ∀ reasons, p = .errored reasons → ∃ reason, reasons = [reason] ∧ reason.severity = .warning

theorem WarnsOnce.hasErrors_reasons {p : ParameterValue} (h : p.WarnsOnce) :
    p.reasons.hasErrors = false := by
  cases p with
  | errored reasons =>
    obtain ⟨reason, rfl, hreason⟩ := h reasons rfl
    simp [reasons, Diagnostics.hasErrors, Diagnostic.isError, hreason]
  | _ => rfl

theorem ofValue_eq_known {v w : Value} (h : ofValue v = .known w) :
    v = w ∧ w.isWhollyKnown = true := by
  rw [ofValue] at h
  split at h
  · rename_i hk
    cases h
    exact ⟨rfl, hk⟩
  · cases h

theorem ofValue_ne_missing (v : Value) : ofValue v ≠ .missing := by
  rw [ofValue]
  split <;> simp

theorem ofValue_ne_errored (v : Value) (reasons : Diagnostics) : ofValue v ≠ .errored reasons := by
  rw [ofValue]
  split <;> simp

theorem warnsOnce_ofValue (v : Value) : (ofValue v).WarnsOnce :=
  fun reasons h => absurd h (ofValue_ne_errored v reasons)

end ParameterValue

namespace Parameter

variable {input : Input} {s : Scope} {b : Block}

/-- A block whose parameter takes its default has none, has one that fails, for which there is one
warning, or has one that gives a value. -/
theorem resolveValue_cases (hi : input.value? b.heading.nameLabel = none) :
    (b.attribute? "default" = none ∧ resolveValue (b.materialize s) s input = .missing) ∨
    ∃ a, b.attribute? "default" = some a ∧
      ((b.DefaultFails s a.expression ∧ ∃ reason : Diagnostic, reason.severity = .warning ∧
        resolveValue (b.materialize s) s input = .errored [reason]) ∨
      ∃ v, b.DefaultGives s a.expression v ∧
        resolveValue (b.materialize s) s input = .ofValue v) := by
  have hheading : (b.materialize s).heading = b.heading := rfl
  have hcontext : (b.materialize s).context s = b.context s := rfl
  have htype := b.expression_presentAttribute?_type s
  rw [resolveValue, hheading, hi, hcontext, Block.attribute?_materialize]
  cases hd : b.attribute? "default" with
  | none => exact Or.inl ⟨rfl, rfl⟩
  | some a =>
    refine Or.inr ⟨a, rfl, ?_⟩
    simp only [Option.map_some]
    cases hv : (b.context s).evaluate a.expression with
    | error err => exact Or.inl ⟨.evaluation hv, _, rfl, rfl⟩
    | ok v =>
      simp only [convertDefault]
      cases hp : (b.materialize s).presentAttribute? "type" with
      | none =>
        rw [hp] at htype
        exact Or.inr ⟨v, .untyped hv htype.symm, rfl⟩
      | some t =>
        rw [hp] at htype
        cases hdecode : TypeSpec.decode t.expression with
        | error err =>
          simp only [hdecode]
          exact Or.inl ⟨.type htype.symm hdecode, _, rfl, rfl⟩
        | ok type =>
          simp only [hdecode]
          cases hc : type.convert (type.applyDefaults v) with
          | error err =>
            exact Or.inl ⟨.conversion hv htype.symm hdecode hc, _, rfl, rfl⟩
          | ok w => exact Or.inr ⟨w, .typed hv htype.symm hdecode hc, rfl⟩

theorem warnsOnce_resolveValue (input : Input) (s : Scope) (b : Block) :
    (resolveValue (b.materialize s) s input).WarnsOnce := by
  cases hi : input.value? b.heading.nameLabel with
  | some supplied =>
    rw [resolveValue_of_supplied (b := b.materialize s) hi]
    exact fun reasons h => nomatch h
  | none =>
    rcases resolveValue_cases (s := s) hi with ⟨-, h⟩ | ⟨a, -, ⟨-, reason, hwarning, h⟩ | ⟨v, -, h⟩⟩
    · rw [h]
      exact fun reasons h => nomatch h
    · rw [h]
      rintro reasons ⟨⟩
      exact ⟨reason, rfl, hwarning⟩
    · rw [h]
      exact ParameterValue.warnsOnce_ofValue v

theorem warnsOnce_resolve (input : Input) (s : Scope) (b : Block) :
    (resolve input s b).1.value.WarnsOnce := by
  cases hv : b.attribute? "value" with
  | none =>
    rw [(resolve_of_no_value hv).1]
    exact warnsOnce_resolveValue input s b
  | some a =>
    rw [(resolve_of_value hv).1]
    exact ParameterValue.warnsOnce_ofValue _

/-- A parameter has what its evaluated block says, beside its value. -/
theorem resolve_eq_describe (input : Input) (s : Scope) (b : Block) :
    (resolve input s b).1 = describe (b.materialize s) (resolve input s b).1.value := by
  obtain ⟨v, hv⟩ := Turn.exists_describe input ⟨s, b⟩
  rw [Turn.parameter] at hv
  rw [hv]
  rfl

end Parameter

/-! ### Everything else about the parameter -/

namespace Block

/-- Two blocks are the same but for the expressions of some attributes. What they held before does not
count. -/
structure SameBut (names : List String) (b b' : Block) : Prop where
  heading : b.heading = b'.heading
  locals : b.locals = b'.locals
  declared : b.declared = b'.declared
  attributes : List.Forall₂ (fun a a' : Attribute => a.name = a'.name ∧ a.location = a'.location ∧
    (a.name ∉ names → a.expression = a'.expression)) b.attributes b'.attributes

/-- Two evaluated blocks show the same but for some attributes. -/
structure ShowSame (names : List String) (b b' : Block) : Prop where
  heading : b.heading = b'.heading
  blocks : b.blocks = b'.blocks
  shown : ∀ name, name ∉ names → b.attribute? name = b'.attribute? name

theorem rel_find?_name {R : Attribute → Attribute → Prop} {as as' : List Attribute}
    (h : List.Forall₂ R as as') (hname : ∀ a a', R a a' → a.name = a'.name) (name : String) :
    Option.Rel R (as.find? fun a => a.name = name) (as'.find? fun a => a.name = name) := by
  induction h with
  | nil => exact .none
  | @cons a a' as as' haa _ ih =>
    rw [List.find?_cons, List.find?_cons, hname a a' haa]
    split
    · exact .some haa
    · exact ih

variable {names : List String} {b b' : Block}

theorem SameBut.rel_attribute? (h : b.SameBut names b') (name : String) :
    Option.Rel (fun a a' : Attribute => a.name = a'.name ∧ a.location = a'.location ∧
      (a.name ∉ names → a.expression = a'.expression)) (b.attribute? name) (b'.attribute? name) :=
  rel_find?_name h.attributes (fun _ _ haa => haa.1) name

theorem SameBut.isSome_attribute? (h : b.SameBut names b') (name : String) :
    (b.attribute? name).isSome = (b'.attribute? name).isSome := by
  rcases rel_cases (h.rel_attribute? name) with ⟨hb, hb'⟩ | ⟨a, a', hb, hb', -⟩
  · rw [hb, hb']
  · rw [hb, hb']
    rfl

/-- Blocks that are the same but for some expressions show the same elsewhere when they are
evaluated. -/
theorem SameBut.showSame (h : b.SameBut names b') (s : Scope) :
    (b.materialize s).ShowSame names (b'.materialize s) where
  heading := h.heading
  blocks := by rw [materialize, materialize, h.locals, h.declared]
  shown := by
    intro name hname
    rw [attribute?_materialize, attribute?_materialize, context, context, h.locals]
    rcases rel_cases (h.rel_attribute? name) with ⟨hb, hb'⟩ | ⟨a, a', hb, hb', hn, hl, he⟩
    · rw [hb, hb']
    · have haname : a.name = name := by simpa using List.find?_some hb
      have hexpression : a.expression = a'.expression := he (haname ▸ hname)
      rw [hb, hb', Option.map_some, Option.map_some, hexpression, hn, hl]

theorem ShowSame.presentAttribute? (h : b.ShowSame names b') {name : String} (hn : name ∉ names) :
    b.presentAttribute? name = b'.presentAttribute? name := by
  rw [Block.presentAttribute?, Block.presentAttribute?, h.shown name hn]

theorem ShowSame.address (h : b.ShowSame names b') : b.address = b'.address := by
  rw [Block.address, Block.address, h.heading]

theorem ShowSame.read (h : b.ShowSame names b') {α : Type} (shape : Shape α) {name : String}
    (hn : name ∉ names) : b.read shape name = b'.read shape name := by
  simp only [Block.read, h.presentAttribute? hn, mistyped, h.address]

theorem ShowSame.readRequired (h : b.ShowSame names b') {α : Type} (shape : Shape α)
    {name : String} (hn : name ∉ names) : b.readRequired shape name = b'.readRequired shape name := by
  simp only [Block.readRequired, h.presentAttribute? hn, missing, h.address, h.heading,
    h.read shape hn]

end Block

namespace Parameter

/-- A parameter without what is made of its default and its type. -/
def withoutDefault (p : Parameter) : Parameter :=
  { p with type := "", defaultText := "", value := .missing, diagnostics := [] }

/-- Blocks that show the same but for default and type describe the same parameter, apart from what is
made of these, and the same is reported after what is reported on account of the value. -/
theorem describe_congr {b b' : Block} (h : b.ShowSame ["default", "type"] b')
    (hd : (b.attribute? "default").isSome = (b'.attribute? "default").isSome)
    (v v' : ParameterValue) :
    (describe b v).withoutDefault = (describe b' v').withoutDefault ∧
      ∃ ds, (describe b v).diagnostics = v.reasons ++ ds ∧
        (describe b' v').diagnostics = v'.reasons ++ ds := by
  have hblocks : ∀ kind, b.blocksOf kind = b'.blocksOf kind := fun kind => by
    rw [Block.blocksOf, Block.blocksOf, h.blocks]
  have hrequired : (b.attribute? "default").isNone = (b'.attribute? "default").isNone := by
    rw [← Option.not_isSome, ← Option.not_isSome, hd]
  constructor
  · simp (disch := decide) only [describe, withoutDefault, readOptions, readValidation?, hblocks,
      h.read, h.readRequired, hrequired, h.address, h.heading]
  · simp (disch := decide) only [describe, readOptions, readValidation?, hblocks, h.read,
      h.readRequired, List.append_assoc]
    exact ⟨_, rfl, rfl⟩

/-- What the value of a parameter is that takes its default. A default that fails is reported once, as a
warning, before all else. -/
structure DefaultOutcome (s : Scope) (b : Block) (p : Parameter) : Prop where
  missing : p.value = .missing ↔ b.attribute? "default" = none
  errored : (∃ reasons, p.value = .errored reasons) ↔
    ∃ a, b.attribute? "default" = some a ∧ b.DefaultFails s a.expression
  warning : ∀ reasons, p.value = .errored reasons →
    ∃ reason, reasons = [reason] ∧ reason.severity = .warning ∧ ∃ ds, p.diagnostics = reason :: ds
  given : ∀ a v, b.attribute? "default" = some a → b.DefaultGives s a.expression v →
    p.value = .ofValue v
  known : ∀ w, p.value = .known w → w.isWhollyKnown = true ∧
    ∀ e type, b.declaredType? s = some e → TypeSpec.decode e = .ok type → type.convert w = .ok w

/-- What is reported on account of the value stands first. -/
theorem exists_diagnostics_resolve (input : Input) (s : Scope) (b : Block) :
    ∃ ds, (resolve input s b).1.diagnostics = (resolve input s b).1.value.reasons ++ ds := by
  have hshow : (b.materialize s).ShowSame ["default", "type"] (b.materialize s) :=
    ⟨rfl, rfl, fun _ _ => rfl⟩
  obtain ⟨-, ds, hds, -⟩ := describe_congr hshow rfl (resolve input s b).1.value
    (resolve input s b).1.value
  rw [← resolve_eq_describe] at hds
  exact ⟨ds, hds⟩

theorem defaultOutcome {input : Input} {s : Scope} {b : Block} (hv : b.attribute? "value" = none)
    (hi : input.value? b.heading.nameLabel = none) : DefaultOutcome s b (resolve input s b).1 := by
  have hvalue : (resolve input s b).1.value = resolveValue (b.materialize s) s input :=
    (resolve_of_no_value hv).1
  have hwarning : ∀ reasons, (resolve input s b).1.value = .errored reasons →
      ∃ reason, reasons = [reason] ∧ reason.severity = .warning ∧
        ∃ ds, (resolve input s b).1.diagnostics = reason :: ds := by
    intro reasons h
    obtain ⟨reason, rfl, hreason⟩ := warnsOnce_resolve input s b reasons h
    obtain ⟨ds, hds⟩ := exists_diagnostics_resolve input s b
    rw [h] at hds
    exact ⟨reason, rfl, hreason, ds, hds⟩
  rcases resolveValue_cases (s := s) hi with
    ⟨hnone, h⟩ | ⟨a, ha, ⟨hfails, reason, -, h⟩ | ⟨v, hgives, h⟩⟩
  · rw [← hvalue] at h
    exact {
      missing := by simp [h, hnone]
      errored := by simp [h, hnone]
      warning := hwarning
      given := by simp [hnone]
      known := by simp [h] }
  · rw [← hvalue] at h
    exact {
      missing := by simp [h, ha]
      errored := ⟨fun _ => ⟨a, ha, hfails⟩, fun _ => ⟨[reason], h⟩⟩
      warning := hwarning
      given := by
        intro a' w ha' hg
        cases ha.symm.trans ha'
        exact absurd hg (hfails.not_gives w)
      known := by simp [h] }
  · rw [← hvalue] at h
    exact {
      missing := by simp [h, ha, ParameterValue.ofValue_ne_missing]
      errored := by
        constructor
        · rintro ⟨reasons, herrored⟩
          exact absurd (h.symm.trans herrored) (ParameterValue.ofValue_ne_errored v reasons)
        · rintro ⟨a', ha', hf⟩
          cases ha.symm.trans ha'
          exact absurd hgives (hf.not_gives v)
      warning := hwarning
      given := by
        intro a' w ha' hg
        cases ha.symm.trans ha'
        rw [h, hgives.unique hg]
      known := by
        intro w hw
        obtain ⟨rfl, hknown⟩ := ParameterValue.ofValue_eq_known (h.symm.trans hw)
        exact ⟨hknown, fun e type ht hd => hgives.convert_eq ht hd⟩ }

/-- The parameter of a block that sets no value itself, and for which none is supplied, has what its
default comes to. Blocks that differ in the expressions of default and type only give parameters that
both have errors or both have none, and that are otherwise the same, apart from their values and the
texts of default and type. -/
theorem resolve_default (input : Input) (s : Scope) (b : Block) :
    (b.attribute? "value" = none → input.value? b.heading.nameLabel = none →
      DefaultOutcome s b (resolve input s b).1) ∧
    ∀ b', b.SameBut ["default", "type"] b' →
      (resolve input s b).1.hasErrors = (resolve input s b').1.hasErrors ∧
      (resolve input s b).1.withoutDefault = (resolve input s b').1.withoutDefault := by
  refine ⟨defaultOutcome, fun b' h => ?_⟩
  have hdefault : ((b.materialize s).attribute? "default").isSome =
      ((b'.materialize s).attribute? "default").isSome := by
    rw [Block.attribute?_materialize, Block.attribute?_materialize, Option.isSome_map,
      Option.isSome_map, h.isSome_attribute?]
  obtain ⟨hsame, ds, hds, hds'⟩ := describe_congr (h.showSame s) hdefault
    (resolve input s b).1.value (resolve input s b').1.value
  rw [← resolve_eq_describe] at hsame hds
  rw [← resolve_eq_describe] at hsame hds'
  refine ⟨?_, hsame⟩
  -- The values only warn, so what is an error stands in the diagnostics that both share.
  have hw := (warnsOnce_resolve input s b).hasErrors_reasons
  have hw' := (warnsOnce_resolve input s b').hasErrors_reasons
  rw [Diagnostics.hasErrors] at hw hw'
  simp only [hasErrors, hds, hds', Diagnostics.hasErrors, List.any_append, hw, hw']

/-- A parameter that is a number, with a default. -/
def cpu (default : Expr) : Block :=
  let here : Location := ⟨none, none⟩
  ⟨⟨"data", ["coder_parameter", "cpu"], here⟩,
    [⟨"name", .string "cpu", .unknown, here⟩, ⟨"type", .variable "number", .unknown, here⟩,
      ⟨"default", default, .unknown, here⟩], [], [], []⟩

/-- A default that is no number leaves a warning in place of the value, and the rest is as with one
that is written as text. -/
theorem resolve_default_cpu :
    let many := (resolve [] .empty (cpu (.string "many"))).1
    let four := (resolve [] .empty (cpu (.string "4"))).1
    (cpu (.string "many")).SameBut ["default", "type"] (cpu (.string "4")) ∧
      (∃ reason ds, many.value = .errored [reason] ∧ reason.severity = .warning ∧
        many.diagnostics = reason :: ds) ∧
      four.value = .known (.number (.int 4)) ∧ many.hasErrors = false ∧ four.hasErrors = false ∧
      many.withoutDefault = four.withoutDefault := by
  intro many four
  have hsame : (cpu (.string "many")).SameBut ["default", "type"] (cpu (.string "4")) :=
    ⟨rfl, rfl, rfl, by simp [cpu]⟩
  have htype : ∀ default, (cpu default).declaredType? .empty = some (.variable "number") :=
    fun _ => rfl
  obtain ⟨houtcome, hrest⟩ := resolve_default [] .empty (cpu (.string "many"))
  obtain ⟨houtcome', -⟩ := resolve_default [] .empty (cpu (.string "4"))
  obtain ⟨herrors, hsame'⟩ := hrest _ hsame
  have hfails : (cpu (.string "many")).DefaultFails .empty (.string "many") :=
    .conversion rfl (htype _) rfl rfl
  have hgives : (cpu (.string "4")).DefaultGives .empty (.string "4") (.number (.int 4)) :=
    .typed rfl (htype _) rfl rfl
  obtain ⟨reasons, hreasons⟩ := (houtcome rfl rfl).errored.2 ⟨_, rfl, hfails⟩
  obtain ⟨reason, rfl, hwarning, ds, hds⟩ := (houtcome rfl rfl).warning reasons hreasons
  have hfour : four.hasErrors = false := rfl
  exact ⟨hsame, ⟨reason, ds, hreasons, hwarning, hds⟩, (houtcome' rfl rfl).given _ _ rfl hgives,
    herrors.trans hfour, hfour, hsame'⟩

end Parameter
end Preflight

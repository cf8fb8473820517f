import Preflight.Expr.Evaluation
import Preflight.Expr.References

/-!
# Evaluation sees references only

An evaluation depends on the variables only through what the references of the expression reach.

* `Env.follow` evaluates a reference: its datum, or why there is none. `Env.reach?` is the datum
  alone.
* An `EvalRelation` is a relation between evaluations that holds of equal ones and respects
  sequencing. Equality is one. An `OutcomeRelation` gives one that looks at values only: that both
  evaluations have the same value or none, or that they do not have two different ones.
* `Expr.eval_rel_of_follow`: if what each reference gives in two environments is related, so are the
  evaluations of the expression. Names that a `for` binds are bound to the same data in both.
-/

namespace Preflight

/-! ### Outcomes -/

section Outcome

variable {ε α β : Type}

@[simp] theorem toOption_pure (a : α) : (pure a : Except ε α).toOption = some a := rfl

@[simp] theorem toOption_ok (a : α) : (.ok a : Except ε α).toOption = some a := rfl

@[simp] theorem toOption_failAt (place : Expr) (cause : EvalCause) :
    (failAt place cause : Eval α).toOption = none := rfl

@[simp] theorem toOption_bind (x : Except ε α) (f : α → Except ε β) :
    (x >>= f).toOption = x.toOption.bind fun a => (f a).toOption := by
  cases x <;> rfl

theorem toOption_eq_some {x : Except ε α} {a : α} : x.toOption = some a ↔ x = .ok a := by
  cases x <;> simp [Except.toOption]

theorem toOption_eq_none {x : Except ε α} : x.toOption = none ↔ ∃ err, x = .error err := by
  cases x <;> simp [Except.toOption]

end Outcome

/-- A relation between outcomes that holds of equal ones and respects sequencing. -/
structure OutcomeRelation where
  rel : {α : Type} → Option α → Option α → Prop
  refl : ∀ {α : Type} (a : Option α), rel a a
  bind : ∀ {α β : Type} {a b : Option α} {f g : α → Option β},
    rel a b → (∀ x, rel (f x) (g x)) → rel (a.bind f) (b.bind g)

namespace OutcomeRelation

/-- Equality of outcomes. -/
def same : OutcomeRelation where
  rel a b := a = b
  refl _ := rfl
  bind h hf := by rw [h, funext hf]

/-- Two evaluations do not succeed with different values. -/
def compatible : OutcomeRelation where
  rel a b := ∀ x y, a = some x → b = some y → x = y
  refl a x y hx hy := by rw [hx] at hy; exact Option.some.inj hy
  bind h hf x y hx hy := by
    obtain ⟨a, ha, hx⟩ := Option.bind_eq_some_iff.1 hx
    obtain ⟨b, hb, hy⟩ := Option.bind_eq_some_iff.1 hy
    obtain rfl := h a b ha hb
    exact hf a x y hx hy

end OutcomeRelation

/-- A relation between evaluations that holds of equal ones and respects sequencing. -/
structure EvalRelation where
  rel : {α : Type} → Eval α → Eval α → Prop
  refl : ∀ {α : Type} (x : Eval α), rel x x
  bind : ∀ {α β : Type} {x y : Eval α} {f g : α → Eval β},
    rel x y → (∀ a, rel (f a) (g a)) → rel (x >>= f) (y >>= g)

namespace EvalRelation

/-- Equality, failures included. -/
def equal : EvalRelation where
  rel x y := x = y
  refl _ := rfl
  bind h hf := by rw [h, funext hf]

/-- The outcomes are related, whatever the failures. -/
def ofOutcome (R : OutcomeRelation) : EvalRelation where
  rel x y := R.rel x.toOption y.toOption
  refl x := R.refl x.toOption
  bind h hf := by
    simp only [toOption_bind]
    exact R.bind h hf

variable (R : EvalRelation) {α β : Type}

theorem mapM {f g : α → Eval β} (as : List α) (h : ∀ a, R.rel (f a) (g a)) :
    R.rel (as.mapM f) (as.mapM g) := by
  induction as with
  | nil => exact R.refl _
  | cons a as ih =>
    simp only [List.mapM_cons]
    exact R.bind (h a) fun b => R.bind ih fun bs => R.refl _

theorem foldlM {f g : β → α → Eval β} (as : List α) (b : β) (h : ∀ b a, R.rel (f b a) (g b a)) :
    R.rel (as.foldlM f b) (as.foldlM g b) := by
  induction as generalizing b with
  | nil => exact R.refl _
  | cons a as ih =>
    simp only [List.foldlM_cons]
    exact R.bind (h b a) fun b => ih b

end EvalRelation

/-! ### What references reach -/

/-- Follows attribute names. -/
def Datum.getPath? : Datum → List String → Option Datum
  | v, [] => some v
  | .object entries, name :: names =>
    match Entries.get? entries name with
    | some v => getPath? v names
    | none => none
  | _, _ :: _ => none

/-- The datum at the end of a reference. -/
def Env.reach? (env : Env) (r : Reference) : Option Datum :=
  (Entries.get? env r.root).bind fun v => v.getPath? r.names

theorem Datum.toOption_field (place : Expr) (v : Datum) (name : String) :
    (v.field place name).toOption = v.getPath? [name] := by
  cases v with
  | object entries => cases h : Entries.get? entries name <;> simp [Datum.field, Datum.getPath?, h]
  | _ => rfl

theorem Datum.getPath?_cons (v : Datum) (name : String) (names : List String) :
    v.getPath? (name :: names) = (v.getPath? [name]).bind fun w => w.getPath? names := by
  cases v with
  | object entries => cases h : Entries.get? entries name <;> simp [Datum.getPath?, h]
  | _ => rfl

/-- The value of a variable. -/
def Env.root (env : Env) (place : Expr) (name : String) : Eval Datum :=
  match Entries.get? env name with
  | some v => .ok v
  | none => failAt place (.undefinedVariable name)

/-- The value of a reference. The first expression is the one that a missing root names, the second
one that a missing attribute names. -/
def Env.follow (env : Env) (outer place : Expr) (r : Reference) : Eval Datum :=
  env.root outer r.root >>= Datum.fields place r.names

theorem Datum.toOption_fields (place : Expr) (names : List String) (v : Datum) :
    (Datum.fields place names v).toOption = v.getPath? names := by
  induction names generalizing v with
  | nil => cases v <;> rfl
  | cons name names ih =>
    rw [Datum.fields, toOption_bind, toOption_field, v.getPath?_cons name names]
    simp only [ih]

@[simp] theorem Datum.bind_fields_nil (place : Expr) (x : Eval Datum) :
    x >>= Datum.fields place [] = x := by
  cases x <;> rfl

theorem Env.toOption_follow (env : Env) (outer place : Expr) (r : Reference) :
    (env.follow outer place r).toOption = env.reach? r := by
  rw [follow, toOption_bind, reach?]
  simp only [Datum.toOption_fields, root]
  cases Entries.get? env r.root <;> rfl

/-- Binding a member gives the names of the binding the same values in every environment, and leaves
all other names as they are. -/
theorem Env.get?_bind (key? : Option String) (value : String) (env : Env) (member : Datum × Datum)
    (name : String) :
    Entries.get? (Env.bind key? value env member) name =
      if value = name then some member.2
      else if key? = some name then some member.1
      else Entries.get? env name := by
  cases key? with
  | none => simp [Env.bind, Entries.get?_cons]
  | some k =>
    by_cases hk : k = name <;> simp [Env.bind, Entries.get?_cons, hk]

/-! ### Agreement -/

/-- What is mentioned gives related data in two environments, and bound names have the same values in
both. -/
structure Agree (R : EvalRelation) (bound : List String) (ms : List Mention) (env env' : Env) :
    Prop where
  mentioned : ∀ r, .reference r ∈ ms → ∀ outer place,
    R.rel (env.follow outer place r) (env'.follow outer place r)
  bound : ∀ name ∈ bound, Entries.get? env name = Entries.get? env' name

namespace Agree

variable {R : EvalRelation} {bound : List String} {ms ms' : List Mention} {env env' : Env}

theorem left (h : Agree R bound (ms ++ ms') env env') : Agree R bound ms env env' :=
  ⟨fun r hr => h.mentioned r (List.mem_append_left _ hr), h.bound⟩

theorem right (h : Agree R bound (ms ++ ms') env env') : Agree R bound ms' env env' :=
  ⟨fun r hr => h.mentioned r (List.mem_append_right _ hr), h.bound⟩

/-- Binding a member keeps agreement, and the names of the binding become bound. -/
theorem bind (h : Agree R bound ms env env') (key? : Option String) (value : String)
    (member : Datum × Datum) :
    Agree R (boundNames key? value ++ bound) ms (Env.bind key? value env member)
      (Env.bind key? value env' member) := by
  have hname : ∀ name, name ∈ boundNames key? value ∨
      Entries.get? env name = Entries.get? env' name →
      Entries.get? (Env.bind key? value env member) name =
        Entries.get? (Env.bind key? value env' member) name := by
    intro name hn
    rw [Env.get?_bind, Env.get?_bind]
    rcases hn with hn | hn
    · cases key? <;> grind [boundNames]
    · rw [hn]
  constructor
  · intro r hr outer place
    by_cases hn : r.root ∈ boundNames key? value
    · rw [Env.follow, Env.follow, Env.root, Env.root, hname r.root (Or.inl hn)]
      exact R.refl _
    · have hs : ∀ env : Env, (Env.bind key? value env member).follow outer place r =
          env.follow outer place r := by
        intro env
        rw [Env.follow, Env.follow, Env.root, Env.root, Env.get?_bind]
        cases key? <;> grind [boundNames]
      rw [hs, hs]
      exact h.mentioned r hr outer place
  · intro name hn
    rcases List.mem_append.1 hn with hn | hn
    · exact hname name (Or.inl hn)
    · exact hname name (Or.inr (h.bound name hn))

/-- A variable with the attribute names behind it gives related data, bound or not. -/
theorem follow {root : String} {path : List Access} {text : String}
    (h : Agree R bound (referTo bound root path text) env env') (outer place : Expr) :
    R.rel (env.follow outer place ⟨root, staticNames path, text⟩)
      (env'.follow outer place ⟨root, staticNames path, text⟩) := by
  by_cases hb : root ∈ bound
  · rw [Env.follow, Env.follow, Env.root, Env.root, h.bound root hb]
    exact R.refl _
  · exact h.mentioned _ (by simp [referTo, hb]) outer place

end Agree

/-! ### Evaluation -/

theorem Expr.evalIn_variable (env : Env) (outer : Option Expr) (name : String) :
    (Expr.variable name).evalIn env outer = env.root (outer.getD (.variable name)) name := by
  cases hv : Entries.get? env name <;> simp only [Expr.evalIn, Env.root, hv]

theorem Expr.mentions_traversal {root : Expr} (h : ∀ name, root ≠ .variable name)
    (bound : List String) (path : List Access) :
    (Expr.traversal root path).mentions bound = root.mentions bound ++ pathMentions bound path := by
  rw [Expr.mentions]
  exact fun name hn => h name hn

section Evaluation

variable (R : EvalRelation)

mutual
/-- Environments in which all references give related data give an expression related evaluations. -/
theorem Expr.evalIn_rel {bound : List String} {env env' : Env} (outer : Option Expr) :
    (e : Expr) → Agree R bound (e.mentions bound) env env' →
      R.rel (e.evalIn env outer) (e.evalIn env' outer)
  | .null, _ | .bool _, _ | .number _, _ | .string _, _ => by
    simp only [Expr.evalIn]
    exact R.refl _
  | .array items, h => by
    rw [Expr.mentions] at h
    simp only [Expr.evalIn]
    exact R.bind (evalItems_rel _ items h) fun _ => R.refl _
  | .object items, h => by
    rw [Expr.mentions] at h
    simp only [Expr.evalIn]
    exact R.bind (evalEntries_rel outer _ items h) fun _ => R.refl _
  | .template form none, _ => by
    simp only [Expr.evalIn]
    exact R.refl _
  | .template form (some parts), h => by
    rw [Expr.mentions, optionalMentions] at h
    by_cases hp : ∃ e, parts = [.interpolation e]
    · obtain ⟨e, rfl⟩ := hp
      rw [partMentions, Part.mentions] at h
      simp only [Expr.evalIn]
      -- One interpolation alone has the value of its expression, which need not be text.
      exact Expr.evalIn_rel _ e h.left
    · have hp' : ∀ e, parts = [.interpolation e] → False := fun e he => hp ⟨e, he⟩
      simp only [Expr.evalIn]
      exact R.bind (evalParts_rel _ _ parts h) fun _ => R.refl _
  | .variable name, h => by
    rw [Expr.evalIn_variable, Expr.evalIn_variable]
    have hr := Agree.follow h (outer.getD (.variable name)) .null
    simpa only [Env.follow, staticNames, Datum.bind_fields_nil] using hr
  | .traversal root path, h => by
    simp only [Expr.evalIn]
    by_cases hv : ∃ name, root = .variable name
    · obtain ⟨name, rfl⟩ := hv
      rw [Expr.mentions] at h
      -- Such a root is mentioned with the names behind it: what they give is related, not the root.
      apply evalPath_rel _ _ path _ _ _ h.right
      rw [Expr.evalIn_variable, Expr.evalIn_variable]
      exact h.left.follow _ _
    · rw [Expr.mentions_traversal (fun name hn => hv ⟨name, hn⟩)] at h
      -- From any other root both runs go on with the same value.
      refine R.bind (Expr.evalIn_rel _ root h.left) fun v => ?_
      exact evalPath_rel _ _ path (.ok v) (.ok v) (R.refl _) h.right
  | .call function args expandFinal, _ => by
    simp only [Expr.evalIn]
    exact R.refl _
  | .paren inner, h => by
    rw [Expr.mentions] at h
    simp only [Expr.evalIn]
    exact Expr.evalIn_rel _ inner h
  | .conditional cond yes no, h => by
    rw [Expr.mentions] at h
    simp only [Expr.evalIn]
    refine R.bind (Expr.evalIn_rel _ cond h.left.left) fun c => R.bind (R.refl _) fun b => ?_
    cases b with
    | true => exact Expr.evalIn_rel _ yes h.left.right
    | false => exact Expr.evalIn_rel _ no h.right
  | .unary op operand, h => by
    rw [Expr.mentions] at h
    simp only [Expr.evalIn]
    exact R.bind (Expr.evalIn_rel _ operand h) fun _ => R.refl _
  | .binary op lhs rhs, h => by
    rw [Expr.mentions] at h
    simp only [Expr.evalIn]
    exact R.bind (Expr.evalIn_rel _ lhs h.left) fun _ =>
      R.bind (Expr.evalIn_rel _ rhs h.right) fun _ => R.refl _
  | .forList key? value collection body cond?, h => by
    rw [Expr.mentions] at h
    simp only [Expr.evalIn]
    refine R.bind (Expr.evalIn_rel _ collection h.left.left) fun c => R.bind (R.refl _) fun ms =>
      R.bind (R.mapM ms fun m => ?_) fun _ => R.refl _
    refine R.bind (evalCond_rel _ cond? (h.right.bind key? value m)) fun b => ?_
    cases b with
    | true => exact R.bind (Expr.evalIn_rel _ body (h.left.right.bind key? value m)) fun _ => R.refl _
    | false => exact R.refl _
  | .forObject key? value collection key body grouping cond?, h => by
    rw [Expr.mentions] at h
    simp only [Expr.evalIn]
    refine R.bind (Expr.evalIn_rel _ collection h.left.left.left) fun c =>
      R.bind (R.refl _) fun ms => R.bind (R.foldlM ms [] fun es m => ?_) fun _ => R.refl _
    refine R.bind (evalCond_rel _ cond? (h.right.bind key? value m)) fun b => ?_
    cases b with
    | true =>
      refine R.bind (Expr.evalIn_rel _ key (h.left.left.right.bind key? value m)) fun _ =>
        R.bind (R.refl _) fun _ => ?_
      exact R.bind (Expr.evalIn_rel _ body (h.left.right.bind key? value m)) fun _ => R.refl _
    | false => exact R.refl _
termination_by e => sizeOf e

theorem evalItems_rel {bound : List String} {env env' : Env} (node : Expr) :
    (es : List Expr) → Agree R bound (itemMentions bound es) env env' →
      R.rel (evalItems env node es) (evalItems env' node es)
  | [], _ => by
    simp only [evalItems]
    exact R.refl _
  | e :: es, h => by
    rw [itemMentions] at h
    simp only [evalItems]
    exact R.bind (Expr.evalIn_rel _ e h.left) fun _ =>
      R.bind (evalItems_rel node es h.right) fun _ => R.refl _
termination_by es => sizeOf es

theorem evalEntries_rel {bound : List String} {env env' : Env} (outer : Option Expr)
    (node : Expr) : (es : List (Key × Expr)) → Agree R bound (entryMentions bound es) env env' →
      R.rel (evalEntries env outer node es) (evalEntries env' outer node es)
  | [], _ => by
    simp only [evalEntries]
    exact R.refl _
  | (k, e) :: es, h => by
    rw [entryMentions] at h
    simp only [evalEntries]
    exact R.bind (Key.evalIn_rel outer node k h.left.left) fun _ =>
      R.bind (Expr.evalIn_rel _ e h.left.right) fun _ =>
        R.bind (evalEntries_rel outer node es h.right) fun _ => R.refl _
termination_by es => sizeOf es

theorem Key.evalIn_rel {bound : List String} {env env' : Env} (outer : Option Expr) (node : Expr) :
    (k : Key) → Agree R bound (k.mentions bound) env env' →
      R.rel (k.evalIn env outer node) (k.evalIn env' outer node)
  | .name n, _ => by
    simp only [Key.evalIn]
    exact R.refl _
  | .expr e, h => by
    rw [Key.mentions] at h
    simp only [Key.evalIn]
    exact R.bind (Expr.evalIn_rel _ e h) fun _ => R.refl _
termination_by k => sizeOf k

/-- The accesses start from two evaluations; what the attribute names in front give is related. -/
theorem evalPath_rel {bound : List String} {env env' : Env} (node place : Expr) :
    (path : List Access) → (x x' : Eval Datum) →
      R.rel (x >>= Datum.fields place (staticNames path)) (x' >>= Datum.fields place (staticNames path)) →
      Agree R bound (pathMentions bound path) env env' →
      R.rel (x >>= evalPath env node place path) (x' >>= evalPath env' node place path)
  | [], x, x', hx, _ => by
    simpa only [evalPath, staticNames, Datum.fields] using hx
  | .field name :: path, x, x', hx, h => by
    rw [pathMentions] at h
    simp only [evalPath, ← bind_assoc]
    apply evalPath_rel node place path _ _ _ h.right
    simpa only [staticNames, Datum.fields, ← bind_assoc] using hx
  | .index e :: path, x, x', hx, h => by
    rw [pathMentions, Access.mentions] at h
    simp only [evalPath]
    refine R.bind (by simpa only [staticNames, Datum.bind_fields_nil] using hx) fun v =>
      R.bind (Expr.evalIn_rel _ e h.left) fun i => ?_
    exact evalPath_rel node place path _ _ (R.refl _) h.right
  | .position n :: path, x, x', hx, h => by
    rw [pathMentions] at h
    simp only [evalPath]
    refine R.bind (by simpa only [staticNames, Datum.bind_fields_nil] using hx) fun v => ?_
    exact evalPath_rel node place path _ _ (R.refl _) h.right
  | .eachField names :: path, x, x', hx, h => by
    rw [pathMentions] at h
    simp only [evalPath]
    refine R.bind (by simpa only [staticNames, Datum.bind_fields_nil] using hx) fun v =>
      R.bind (R.refl _) fun items => ?_
    exact evalPath_rel node place path (.ok (.list items)) _ (R.refl _) h.right
  | .each :: path, x, x', hx, h => by
    rw [pathMentions] at h
    simp only [evalPath]
    refine R.bind (by simpa only [staticNames, Datum.bind_fields_nil] using hx) fun v =>
      R.bind (R.mapM _ fun w => ?_) fun _ => R.refl _
    exact evalPath_rel node place path (.ok w) (.ok w) (R.refl _) h.right
termination_by path => sizeOf path

theorem evalCond_rel {bound : List String} {env env' : Env} (node : Expr) :
    (e? : Option Expr) → Agree R bound (condMentions bound e?) env env' →
      R.rel (evalCond env node e?) (evalCond env' node e?)
  | none, _ => by
    simp only [evalCond]
    exact R.refl _
  | some e, h => by
    rw [condMentions] at h
    simp only [evalCond]
    exact R.bind (Expr.evalIn_rel _ e h) fun _ => R.refl _
termination_by e? => sizeOf e?

theorem evalParts_rel {bound : List String} {env env' : Env} (node place : Expr) :
    (ps : List Part) → Agree R bound (partMentions bound ps) env env' →
      R.rel (evalParts env node place ps) (evalParts env' node place ps)
  | [], _ => by
    simp only [evalParts]
    exact R.refl _
  | p :: ps, h => by
    rw [partMentions] at h
    simp only [evalParts]
    exact R.bind (Part.evalIn_rel node place p h.left) fun _ =>
      R.bind (evalParts_rel node place ps h.right) fun _ => R.refl _
termination_by ps => sizeOf ps

theorem Part.evalIn_rel {bound : List String} {env env' : Env} (node place : Expr) :
    (p : Part) → Agree R bound (p.mentions bound) env env' →
      R.rel (p.evalIn env node place) (p.evalIn env' node place)
  | .literal text, _ => by
    simp only [Part.evalIn]
    exact R.refl _
  | .interpolation e, h => by
    rw [Part.mentions] at h
    simp only [Part.evalIn]
    exact R.bind (Expr.evalIn_rel _ e h) fun _ => R.refl _
  | .branch cond yes no, h => by
    rw [Part.mentions] at h
    simp only [Part.evalIn]
    refine R.bind (Expr.evalIn_rel _ cond h.left.left) fun c => R.bind (R.refl _) fun b => ?_
    cases b with
    | true => exact evalParts_rel node place yes h.left.right
    | false => exact evalOtherwise_rel node place no h.right
  | .loop key? value collection body, h => by
    rw [Part.mentions] at h
    simp only [Part.evalIn]
    refine R.bind (Expr.evalIn_rel _ collection h.left) fun c => R.bind (R.refl _) fun ms =>
      R.bind (R.mapM ms fun m => ?_) fun _ => R.refl _
    exact evalParts_rel node node body (h.right.bind key? value m)
termination_by p => sizeOf p

theorem evalOtherwise_rel {bound : List String} {env env' : Env} (node place : Expr) :
    (ps? : Option (List Part)) → Agree R bound (optionalMentions bound ps?) env env' →
      R.rel (evalOtherwise env node place ps?) (evalOtherwise env' node place ps?)
  | none, _ => by
    simp only [evalOtherwise]
    exact R.refl _
  | some ps, h => by
    rw [optionalMentions] at h
    simp only [evalOtherwise]
    exact evalParts_rel node place ps h
termination_by ps? => sizeOf ps?
end

/-- If what each reference gives in two environments is related, so are the evaluations. -/
theorem Expr.eval_rel_of_follow {env env' : Env} {e : Expr}
    (h : ∀ r ∈ e.references, ∀ outer place,
      R.rel (env.follow outer place r) (env'.follow outer place r)) :
    R.rel (e.eval env) (e.eval env') := by
  have ha : Agree R [] (e.mentions []) env env' :=
    ⟨fun r hr => h r (List.mem_filterMap.2 ⟨_, hr, rfl⟩), by simp⟩
  exact e.evalIn_rel R none ha

end Evaluation

/-- If what each reference reaches in two environments is related, so are the outcomes. -/
theorem Expr.eval_rel (R : OutcomeRelation) {env env' : Env} {e : Expr}
    (h : ∀ r ∈ e.references, R.rel (env.reach? r) (env'.reach? r)) :
    R.rel (e.eval env).toOption (e.eval env').toOption := by
  refine Expr.eval_rel_of_follow (.ofOutcome R) fun r hr outer place => ?_
  have hf := h r hr
  rw [← Env.toOption_follow env outer place, ← Env.toOption_follow env' outer place] at hf
  exact hf

end Preflight

import Preflight.Proofs.Noninterference
import Preflight.Tag

/-!
# What blocks read from a scope

A scope shows a path the same as another one if on the way along the path both hold objects or equal
values, and equal values at its end (`Scope.SameFor`).

* An expression has the same result in two scopes that show all its references the same, failures
  included (`Context.evaluate_eq`).
* So has everything that is evaluated in a block: its attributes, the nested blocks that a `dynamic`
  one stands for (`Block.materialize_eq`), and its tags (`TagBlock.resolve_eq`).
-/

namespace Preflight

/-! ### Scopes that look the same -/

/-- On the way along a path both scopes hold the same or objects, and at its end the same. -/
structure Scope.SameFor (path : List String) (s s' : Scope) : Prop where
  computed : s.computed = s'.computed
  along : ∀ p, p <+: path → s.getPath? p = s'.getPath? p ∨
    p ≠ path ∧ (∃ es, s.getPath? p = some (.object es)) ∧ ∃ fs, s'.getPath? p = some (.object fs)

namespace Scope.SameFor

variable {path : List String} {s s' s'' : Scope}

theorem refl (path : List String) (s : Scope) : s.SameFor path s := ⟨rfl, fun _ _ => Or.inl rfl⟩

theorem trans (h : s.SameFor path s') (h' : s'.SameFor path s'') : s.SameFor path s'' := by
  refine ⟨h.computed.trans h'.computed, fun p hp => ?_⟩
  rcases h.along p hp with heq | ⟨hne, hs, hs'⟩ <;>
    rcases h'.along p hp with heq' | ⟨hne', ht, ht'⟩
  · exact Or.inl (heq.trans heq')
  · exact Or.inr ⟨hne', by rwa [heq], ht'⟩
  · exact Or.inr ⟨hne, hs, by rwa [← heq']⟩
  · exact Or.inr ⟨hne, hs, ht'⟩

/-- Writing behind a part that lies apart from a path, and above which there is an object, does not
show on the path. -/
theorem set {a : List String} {name : String} {es : Entries Value}
    (hobj : s.getPath? a = some (.object es)) (h : Diverge (a ++ [name]) path) (p : List String)
    (w : Value) : s.SameFor path (s.set (a ++ [name] ++ p) w) := by
  refine ⟨by simp, fun q hq => ?_⟩
  have hnq : ¬ a ++ [name] <+: q := fun haq => h.1 (haq.trans hq)
  by_cases hqp : q <+: a ++ [name] ++ p
  · -- The way leads along the written path, and ends before the part that lies apart.
    rcases List.prefix_or_prefix_of_prefix hqp (List.prefix_append _ p) with hqa | haq
    · have hqne : q ≠ a ++ [name] := fun heq => hnq (heq ▸ List.prefix_refl _)
      have hqa : q <+: a := (List.prefix_concat_iff.1 hqa).resolve_left hqne
      rcases List.eq_nil_or_concat q with rfl | ⟨q', k, hk⟩
      · exact Or.inl rfl
      have hqn : q ≠ [] := by simp [hk]
      refine Or.inr ⟨fun heq => h.2 (heq ▸ hqa.trans (List.prefix_append a [name])), ?_, ?_⟩
      · by_cases heq : q = a
        · exact ⟨es, heq ▸ hobj⟩
        · exact exists_object_above hqn hqa heq hobj
      · refine exists_object_above hqn hqp ?_ (s.getPath?_set_self (by simp) w)
        rintro rfl
        exact hnq (List.prefix_append _ p)
    · exact absurd haq hnq
  · have hdiv : Diverge (a ++ [name] ++ p) q :=
      ⟨fun hpq => hnq ((List.prefix_append _ p).trans hpq), hqp⟩
    exact Or.inl (s.getPath?_set_of_diverge hdiv w).symm

/-- The root of a reference has values that its names do not tell apart. -/
theorem sameAlong {r : Reference} (h : s.SameFor r.path s') :
    Option.Rel (Value.SameAlong r.names) (s.get? r.root) (s'.get? r.root) := by
  refine Value.SameAlong.of_getPath? (fun p q hpq hq => ?_) ?_
  · rcases h.along (r.root :: p) ⟨q, by rw [Reference.path, hpq]; rfl⟩ with heq | ⟨-, hobj⟩
    · exact Or.inl heq
    · exact Or.inr hobj
  · rcases h.along r.path (List.prefix_refl _) with heq | ⟨hne, -⟩
    · exact heq
    · exact absurd rfl hne

theorem isComputed (h : s.SameFor path s') (p : List String) : s.isComputed p = s'.isComputed p := by
  rw [Scope.isComputed, Scope.isComputed, h.computed]

theorem lookup {r : Reference} (h : s.SameFor r.path s') (locals : Entries Value) :
    (Context.mk s locals).lookup r = (Context.mk s' locals).lookup r :=
  Context.lookup_congr locals h.isComputed h.sameAlong

end Scope.SameFor

/-! ### Expressions -/

/-- Values that the names do not tell apart give the same value at the end, or the same failure. -/
theorem Value.SameAlong.fields {names : List String} {v w : Value} (h : v.SameAlong names w)
    (place : Expr) :
    Datum.fields place names v.toDatum = Datum.fields place names w.toDatum := by
  induction names generalizing v w with
  | nil =>
    obtain rfl : v = w := h
    rfl
  | cons name names ih =>
    rcases h with rfl | ⟨es, fs, rfl, rfl, h⟩
    · rfl
    · simp only [Datum.fields, Value.toDatum, Datum.field, Value.toDatumEntries_eq_map,
        Entries.get?_map]
      rcases rel_cases h with ⟨he, hf⟩ | ⟨v, w, he, hf, hvw⟩
      · simp only [he, hf]
      · simp only [he, hf]
        exact ih hvw

namespace Context

variable {s s' : Scope} {e : Expr}

/-- What a reference evaluates to is the same in scopes that show it the same. -/
theorem follow_eq {r : Reference} (h : s.SameFor r.path s') (locals : Entries Value)
    (outer place : Expr) :
    (Context.mk s locals).env.follow outer place r =
      (Context.mk s' locals).env.follow outer place r := by
  simp only [Env.follow, Env.root, get?_env, root?]
  cases locals.get? r.root with
  | some v => rfl
  | none =>
    rcases rel_cases h.sameAlong with ⟨hs, hs'⟩ | ⟨v, w, hs, hs', hvw⟩
    · simp only [hs, hs']
    · simp only [hs, hs']
      exact hvw.fields place

/-- The result of an expression, an error included, is made of what its references show. -/
theorem evaluate_eq (h : ∀ r ∈ e.references, s.SameFor r.path s') (locals : Entries Value) :
    (Context.mk s locals).evaluate e = (Context.mk s' locals).evaluate e := by
  have hu : e.references.find? (Context.mk s locals).isUndeclared =
      e.references.find? (Context.mk s' locals).isUndeclared :=
    List.find?_congr fun r hr => by rw [isUndeclared, isUndeclared, (h r hr).lookup]
  have ho : e.references.any (Context.mk s locals).isOpen =
      e.references.any (Context.mk s' locals).isOpen := by
    rw [Bool.eq_iff_iff, List.any_eq_true, List.any_eq_true]
    exact exists_congr fun r => and_congr_right fun hr => by
      rw [isOpen, isOpen, (h r hr).lookup]
  have he : e.eval (Context.mk s locals).env = e.eval (Context.mk s' locals).env :=
    Expr.eval_rel_of_follow .equal fun r hr => follow_eq (h r hr) locals
  rw [evaluate, evaluate, hu, ho, he]

theorem value_eq (h : ∀ r ∈ e.references, s.SameFor r.path s') (locals : Entries Value) :
    (Context.mk s locals).value e = (Context.mk s' locals).value e := by
  rw [value, value, evaluate_eq h locals]

end Context

/-! ### Blocks -/

mutual
/-- The references in all expressions of a declaration and of the nested ones. -/
def Declaration.references : Declaration → List Reference
  | ⟨_, assignments, nested⟩ =>
    (assignments.flatMap fun a => a.expression.references) ++ nestedReferences nested

/-- The references in nested declarations. -/
def nestedReferences : List Declaration → List Reference
  | [] => []
  | d :: ds => d.references ++ nestedReferences ds
end

/-- The references in all expressions of a block and of the blocks nested in it. -/
def Block.references (b : Block) : List Reference :=
  (b.attributes.flatMap fun a => a.expression.references) ++ nestedReferences b.declared

section Blocks

variable {s s' : Scope}

theorem Assignment.evaluate_eq {as : List Assignment}
    (h : ∀ r ∈ as.flatMap fun a => a.expression.references, s.SameFor r.path s')
    (locals : Entries Value) :
    as.map (Assignment.evaluate ⟨s, locals⟩) = as.map (Assignment.evaluate ⟨s', locals⟩) := by
  apply List.map_congr_left
  intro a ha
  rw [evaluate, evaluate,
    Context.value_eq fun r hr => h r (List.mem_flatMap.2 ⟨a, ha, hr⟩)]

theorem Declaration.instances_eq {d : Declaration}
    (h : ∀ r ∈ d.assignments.flatMap fun a => a.expression.references, s.SameFor r.path s')
    (locals : Entries Value) : d.instances s locals = d.instances s' locals := by
  have hvalue : ∀ name a, d.assignment? name = some a → ∀ locals,
      (Context.mk s locals).value a.expression = (Context.mk s' locals).value a.expression :=
    fun name a ha => Context.value_eq fun r hr =>
      h r (List.mem_flatMap.2 ⟨a, List.mem_of_find?_eq_some ha, hr⟩)
  rw [instances, instances]
  cases d.heading.labels with
  | nil => rfl
  | cons kind labels =>
    cases hf : d.assignment? "for_each" with
    | none => rfl
    | some forEach =>
      simp only [hvalue _ _ hf]
      cases hl : d.assignment? "labels" with
      | none => rfl
      | some l => simp only [hvalue _ _ hl]

mutual
/-- A declaration gives the same block in scopes that show its references the same. -/
theorem Declaration.instantiate_eq (i : Instance) : (d : Declaration) →
    (∀ r ∈ d.references, s.SameFor r.path s') → d.instantiate s i = d.instantiate s' i
  | ⟨heading, assignments, nested⟩, h => by
    rw [Declaration.references, List.forall_mem_append] at h
    rw [Declaration.instantiate, Declaration.instantiate, Assignment.evaluate_eq h.1,
      expandNested_eq i.locals nested h.2]

/-- A nested declaration stands for the same blocks. -/
theorem Declaration.expand_eq (locals : Entries Value) : (d : Declaration) →
    (∀ r ∈ d.references, s.SameFor r.path s') → d.expand s locals = d.expand s' locals
  | ⟨heading, assignments, nested⟩, h => by
    rw [Declaration.references, List.forall_mem_append] at h
    rw [Declaration.expand, Declaration.expand, Declaration.instances_eq h.1,
      Assignment.evaluate_eq h.1, expandNested_eq locals nested h.2,
      expandContent_eq _ nested h.2]

theorem expandNested_eq (locals : Entries Value) : (ds : List Declaration) →
    (∀ r ∈ nestedReferences ds, s.SameFor r.path s') →
      expandNested s locals ds = expandNested s' locals ds
  | [], _ => rfl
  | d :: ds, h => by
    rw [nestedReferences, List.forall_mem_append] at h
    rw [expandNested, expandNested, d.expand_eq locals h.1, expandNested_eq locals ds h.2]

theorem expandContent_eq (instances : List Instance) : (ds : List Declaration) →
    (∀ r ∈ nestedReferences ds, s.SameFor r.path s') →
      expandContent s instances ds = expandContent s' instances ds
  | [], _ => rfl
  | d :: ds, h => by
    rw [nestedReferences, List.forall_mem_append] at h
    rw [expandContent, expandContent, expandContent_eq instances ds h.2]
    have hd : (fun i => d.instantiate s i) = fun i => d.instantiate s' i :=
      funext fun i => d.instantiate_eq i h.1
    rw [hd]
end

/-- A block evaluated again is the same in scopes that show its references the same. -/
theorem Block.materialize_eq {b : Block} (h : ∀ r ∈ b.references, s.SameFor r.path s') :
    b.materialize s = b.materialize s' := by
  rw [references, List.forall_mem_append] at h
  have hattributes : (b.attributes.map fun a =>
        { a with value := (b.context s).value a.expression }) =
      b.attributes.map fun a => { a with value := (b.context s').value a.expression } := by
    apply List.map_congr_left
    intro a ha
    rw [context, context,
      Context.value_eq fun r hr => h.1 r (List.mem_flatMap.2 ⟨a, ha, hr⟩)]
  rw [materialize, materialize, hattributes, expandNested_eq b.locals b.declared h.2]

/-! ### Tags -/

theorem TagPolicy.eq_object_of_tags {e : Expr} {items : List (Key × Expr)}
    (h : TagPolicy.tags e = .ok items) : e = .object items := by
  cases e with
  | object is =>
    cases h
    rfl
  | _ => cases h

/-- What a key or a value of an object refers to, the object refers to. -/
theorem Expr.mem_references_object {items : List (Key × Expr)} {item : Key × Expr}
    (hi : item ∈ items) {e : Expr} (he : item.1 = .expr e ∨ item.2 = e) {r : Reference}
    (hr : r ∈ e.references) : r ∈ (Expr.object items).references := by
  obtain ⟨m, hm, hmr⟩ := List.mem_filterMap.1 hr
  refine List.mem_filterMap.2 ⟨m, ?_, hmr⟩
  rw [Expr.mentions, entryMentions_eq_flatMap]
  refine List.mem_flatMap.2 ⟨item, hi, List.mem_append.2 ?_⟩
  rcases he with he | rfl
  · left
    rw [he, Key.mentions]
    exact hm
  · exact Or.inr hm

theorem TagSite.side_eq {e : Expr} (h : ∀ r ∈ e.references, s.SameFor r.path s')
    (locals : Entries Value) (location : Location) (address : String) :
    TagSite.side ⟨⟨s, locals⟩, location, address⟩ e =
      TagSite.side ⟨⟨s', locals⟩, location, address⟩ e := by
  simp only [side, value, TagSite.evaluate, Context.evaluate_eq h, report]

theorem TagSite.tag_eq {items : List (Key × Expr)}
    (h : ∀ r ∈ (Expr.object items).references, s.SameFor r.path s') {item : Key × Expr}
    (hi : item ∈ items) (locals : Entries Value) (location : Location) (address : String) :
    TagSite.tag ⟨⟨s, locals⟩, location, address⟩ item =
      TagSite.tag ⟨⟨s', locals⟩, location, address⟩ item := by
  have hside : ∀ e, item.1 = .expr e ∨ item.2 = e →
      TagSite.side ⟨⟨s, locals⟩, location, address⟩ e =
        TagSite.side ⟨⟨s', locals⟩, location, address⟩ e :=
    fun e he => side_eq (fun r hr => h r (Expr.mem_references_object hi he hr)) _ _ _
  rw [tag, tag, hside item.2 (Or.inr rfl)]
  cases hk : item.1 with
  | name n => rfl
  | expr e => rw [key, key, hside e (Or.inl hk)]

/-- The tags of a block are the same in scopes that show the references in them the same. -/
theorem TagBlock.resolve_eq {b : Block} (h : ∀ a, b.attribute? "tags" = some a →
    ∀ r ∈ a.expression.references, s.SameFor r.path s') :
    TagBlock.resolve s b = TagBlock.resolve s' b := by
  rw [TagBlock.resolve, TagBlock.resolve]
  cases ha : b.presentAttribute? "tags" with
  | none => rfl
  | some a =>
    cases ht : TagPolicy.tags a.expression with
    | error reason => simp only [ht]
    | ok items =>
      obtain ⟨hb, -⟩ := Option.filter_eq_some_iff.1 ha
      have hrefs : ∀ r ∈ (Expr.object items).references, s.SameFor r.path s' := by
        rw [← TagPolicy.eq_object_of_tags ht]
        exact h a hb
      have htags : items.map (TagSite.tag ⟨b.context s, a.location, b.address⟩) =
          items.map (TagSite.tag ⟨b.context s', a.location, b.address⟩) :=
        List.map_congr_left fun item hi => TagSite.tag_eq hrefs hi _ _ _
      simp only [ht, htags]

end Blocks

end Preflight

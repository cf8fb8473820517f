import Preflight.Proofs.PathReference
import Preflight.Proofs.Reading
import Preflight.Proofs.Refinement

/-!
# The three states of a side of a tag

A side of a tag is errored, unknown or known, and what is reported says which.

* `Context.Pending` says that a reference stands for something that is not known, `TagSite.Waits`
  that an expression may be used in a tag and waits for such a reference. These are the expressions
  that are unknown (`TagSite.value_eq_unknown_iff`).
* A side is errored exactly if something is reported about it, and only errors are
  (`TagSite.reports_value`); `TagSite.Classified` puts the three states together.
* `TagBlock.resolve_classified`: what makes a block errored as a whole, and that in all others each
  tag is made of its own pair alone.
-/

namespace Preflight

/-! ### References to what is not known -/

/-- Why what lies behind a value, along some names, is not known. -/
inductive Scope.Opens (s : Scope) (path : List String) (v : Value) (names : List String) : Prop
  /-- Not everything is known of the value at the end. -/
  | value {w : Value} (hw : v.getPath? names = some w) (hk : w.isWhollyKnown = false)
  /-- There is something unknown on the way. -/
  | unknown {p q : List String} (hn : names = p ++ q) (hu : v.getPath? p = some .unknown)
  /-- An object on the way does not have the attribute, and its attributes are computed later. -/
  | computed {p q : List String} {name : String} {es : Entries Value} (hn : names = p ++ name :: q)
      (ho : v.getPath? p = some (.object es)) (ha : es.get? name = none)
      (hc : s.isComputed (path ++ p) = true)

/-- What a reference stands for is there, but not known. -/
def Context.Pending (c : Context) (r : Reference) : Prop :=
  ∃ v, c.root? r.root = some v ∧ c.scope.Opens [r.root] v r.names

namespace Scope.Opens

variable {s : Scope} {path names : List String} {name : String} {es : Entries Value} {v : Value}

/-- Behind an attribute that is there the same is not known as behind its value. -/
theorem object_iff (h : es.get? name = some v) :
    s.Opens path (.object es) (name :: names) ↔ s.Opens (path ++ [name]) v names := by
  have hcons : ∀ p, (Value.object es).getPath? (name :: p) = v.getPath? p := fun p => by
    rw [Value.getPath?_cons, Value.entries_object, h, Option.bind_some]
  constructor
  · rintro (⟨hw, hk⟩ | ⟨hn, hu⟩ | ⟨hn, ho, ha, hc⟩)
    · exact .value (by rwa [hcons] at hw) hk
    · rename_i p q
      cases p with
      | nil => simp at hu
      | cons k p =>
        obtain ⟨rfl, rfl⟩ := List.cons.inj hn
        exact .unknown rfl (by rwa [hcons] at hu)
    · rename_i p q k fs
      cases p with
      | nil =>
        obtain ⟨rfl, rfl⟩ := List.cons.inj hn
        rw [Value.getPath?_nil] at ho
        cases ho
        exact absurd (h.symm.trans ha) (by simp)
      | cons l p =>
        obtain ⟨rfl, rfl⟩ := List.cons.inj hn
        exact .computed rfl (by rwa [hcons] at ho) ha (by simpa using hc)
  · rintro (⟨hw, hk⟩ | ⟨rfl, hu⟩ | ⟨rfl, ho, ha, hc⟩)
    · exact .value (by rwa [hcons]) hk
    · exact .unknown (List.cons_append ..).symm (by rwa [hcons])
    · exact .computed (List.cons_append ..).symm (by rwa [hcons]) ha (by simpa using hc)

/-- An attribute that is not there is not known if it is computed later. -/
theorem missing_iff (h : (v.entries.get? name) = none) (hu : v ≠ .unknown) :
    s.Opens path v (name :: names) ↔ (∃ es, v = .object es) ∧ s.isComputed path = true := by
  have hcons : ∀ p, v.getPath? (name :: p) = none := fun p => by
    rw [Value.getPath?_cons, h, Option.bind_none]
  constructor
  · rintro (⟨hw, -⟩ | ⟨hn, hp⟩ | ⟨hn, ho, -, hc⟩)
    · rw [hcons] at hw
      cases hw
    · rename_i p q
      cases p with
      | nil => exact absurd (by simpa using hp) hu
      | cons k p =>
        obtain ⟨rfl, -⟩ := List.cons.inj hn
        rw [hcons] at hp
        cases hp
    · rename_i p q k es
      cases p with
      | nil => exact ⟨⟨es, by simpa using ho⟩, by simpa using hc⟩
      | cons l p =>
        obtain ⟨rfl, -⟩ := List.cons.inj hn
        rw [hcons] at ho
        cases ho
  · rintro ⟨⟨es, rfl⟩, hc⟩
    exact .computed (p := []) rfl (Value.getPath?_nil _) h (by simpa using hc)

end Scope.Opens

/-- Following names comes to something that is not known exactly if there is a reason for it. -/
theorem Scope.isOpen_follow_iff (s : Scope) (path names : List String) (v : Value) :
    (s.follow path v names).isOpen = true ↔ s.Opens path v names := by
  induction names generalizing path v with
  | nil =>
    have hfollow : s.follow path v [] = .found v := by cases v <;> rfl
    rw [hfollow, Lookup.isOpen, Bool.not_eq_true']
    constructor
    · exact .value (Value.getPath?_nil v)
    · rintro (⟨hw, hk⟩ | ⟨hn, hu⟩ | ⟨hn, -, -, -⟩)
      · rw [Value.getPath?_nil] at hw
        cases hw
        exact hk
      · obtain ⟨rfl, rfl⟩ := List.nil_eq_append_iff.1 hn
        rw [Value.getPath?_nil] at hu
        cases hu
        rfl
      · simp at hn
  | cons name names ih =>
    cases v with
    | unknown => exact ⟨fun _ => .unknown (p := []) rfl (Value.getPath?_nil _), fun _ => rfl⟩
    | object es =>
      cases h : Entries.get? es name with
      | some v =>
        rw [Opens.object_iff h, ← ih]
        simp only [follow, h]
      | none =>
        rw [Opens.missing_iff (v := .object es) h (by simp)]
        by_cases hc : s.isComputed path = true <;> simp [follow, h, hc, Lookup.isOpen]
    | _ =>
      rw [Opens.missing_iff rfl (by simp)]
      simp [follow, Lookup.isOpen]

namespace Context

theorem isOpen_lookup_iff (c : Context) (r : Reference) :
    (c.lookup r).isOpen = true ↔ c.Pending r := by
  rw [lookup, Pending]
  cases c.root? r.root with
  | none => simp [Lookup.isOpen]
  | some v => simp [Scope.isOpen_follow_iff]

theorem lookup_eq_undeclared_iff (c : Context) (r : Reference) :
    c.lookup r = .undeclared ↔ c.root? r.root = none := by
  rw [lookup]
  cases c.root? r.root with
  | none => simp
  | some v => simp [Scope.follow_ne_undeclared]

theorem root?_isSome_iff (c : Context) (name : String) :
    (c.root? name).isSome = true ↔
      (c.locals.get? name).isSome = true ∨ (c.scope.get? name).isSome = true := by
  rw [root?]
  cases c.locals.get? name <;> simp

theorem find?_isUndeclared_eq_none_iff (c : Context) (e : Expr) :
    e.references.find? c.isUndeclared = none ↔
      ∀ r ∈ e.references, (c.root? r.root).isSome = true := by
  simp only [List.find?_eq_none, isUndeclared_iff, lookup_eq_undeclared_iff,
    Option.isSome_iff_ne_none, ne_eq]

/-- An expression is unknown exactly if all its roots are there and one of its references stands for
something that is not known. -/
theorem evaluate_eq_unknown_iff (c : Context) (e : Expr) :
    c.evaluate e = .ok .unknown ↔ (∀ r ∈ e.references, (c.root? r.root).isSome = true) ∧
      ∃ r ∈ e.references, c.Pending r := by
  simp only [← find?_isUndeclared_eq_none_iff, ← isOpen_lookup_iff]
  constructor
  · intro h
    have hd : e.references.find? c.isUndeclared = none := by
      cases hd : e.references.find? c.isUndeclared with
      | none => rfl
      | some r =>
        rw [evaluate_of_undeclared hd] at h
        cases h
    refine ⟨hd, ?_⟩
    by_contra hno
    have hc : ∀ r ∈ e.references, (c.lookup r).isOpen = false :=
      fun r hr => Bool.eq_false_iff.2 fun ho => hno ⟨r, hr, ho⟩
    rw [evaluate_of_closed hd hc] at h
    -- The value would come from the expression itself, and such values are wholly known.
    cases he : e.eval c.env with
    | error f =>
      rw [he] at h
      cases h
    | ok d =>
      rw [he] at h
      have hk := Value.isWhollyKnown_ofDatum d
      rw [Except.ok.inj h] at hk
      cases hk
  · exact fun ⟨hd, ho⟩ => evaluate_of_open hd ho

end Context

/-! ### Sides -/

/-- A side is errored exactly if something is reported about it, and only errors are reported. -/
structure TagValue.Reports (v : TagValue) (ds : Diagnostics) : Prop where
  errored_iff : v = .errored ↔ ds ≠ []
  errors : ∀ d ∈ ds, d.isError = true

namespace TagValue.Reports

theorem none {v : TagValue} (h : v ≠ .errored) : v.Reports [] :=
  ⟨by simp [h], by simp⟩

theorem errored {ds : Diagnostics} (hn : ds ≠ []) (h : ∀ d ∈ ds, d.isError = true) :
    errored.Reports ds :=
  ⟨by simp [hn], h⟩

end TagValue.Reports

theorem Disallowed.isError_diagnostic (reason : Disallowed) : reason.diagnostic.isError = true := by
  cases reason <;> rfl

namespace TagSite

variable (site : TagSite)

/-- The policy permits an expression, all its roots are there, and one of its references stands for
something that is not known. -/
structure Waits (e : Expr) : Prop where
  permitted : TagPolicy.entry e = []
  declared : ∀ r ∈ e.references, (site.context.locals.get? r.root).isSome = true ∨
    (site.context.scope.get? r.root).isSome = true
  pending : ∃ r ∈ e.references, site.context.Pending r

theorem reports_evaluate (e : Expr) :
    (site.evaluate e).value.Reports (site.evaluate e).diagnostics := by
  rw [evaluate]
  cases site.context.evaluate e with
  | error err => exact .errored (by simp) (by simp [report]; rfl)
  | ok v =>
    simp only
    split
    · cases v.toText with
      | ok s => exact .none (by simp)
      | error err => exact .errored (by simp) (by simp [report]; rfl)
    · exact .none (by simp)

theorem reports_value (e : Expr) : (site.value e).value.Reports (site.value e).diagnostics := by
  rw [value]
  cases TagPolicy.entry e with
  | nil => exact site.reports_evaluate e
  | cons reason reasons =>
    refine .errored (by simp) fun d hd => ?_
    obtain ⟨reason', -, rfl⟩ := List.mem_map.1 hd
    exact reason'.isError_diagnostic

theorem evaluate_value_eq_unknown_iff (e : Expr) :
    (site.evaluate e).value = .unknown ↔ site.context.evaluate e = .ok .unknown := by
  rw [evaluate]
  cases he : site.context.evaluate e with
  | error err => simp
  | ok v =>
    simp only [Except.ok.injEq]
    constructor
    · intro h
      by_contra hv
      rw [if_pos (Context.isWhollyKnown_of_evaluate he hv)] at h
      cases ht : v.toText <;> simp [ht] at h
    · rintro rfl
      rfl

/-- An expression is unknown in a tag exactly if it waits for something. -/
theorem value_eq_unknown_iff (e : Expr) : (site.value e).value = .unknown ↔ site.Waits e := by
  rw [value]
  cases hp : TagPolicy.entry e with
  | cons reason reasons =>
    refine ⟨fun h => ?_, fun h => ?_⟩
    · cases h
    · exact absurd (hp.symm.trans h.permitted) (by simp)
  | nil =>
    simp only [evaluate_value_eq_unknown_iff, Context.evaluate_eq_unknown_iff,
      Context.root?_isSome_iff]
    exact ⟨fun h => ⟨hp, h.1, h.2⟩, fun h => ⟨h.declared, h.pending⟩⟩

/-- The state of a side, given as a key: what is reported, what it waits for, and else a known
text. -/
structure Classified (k : Key) : Prop where
  reports : (site.key k).value.value.Reports (site.key k).diagnostics
  unknown_iff : (site.key k).value.value = .unknown ↔ ∃ e, k = .expr e ∧ site.Waits e
  references : (site.key k).value.value = .unknown → (site.key k).value.references ≠ []
  known : (site.key k).diagnostics = [] → (∀ e, k = .expr e → ¬ site.Waits e) →
    ∃ text, (site.key k).value.value = .known text

theorem classified (k : Key) : site.Classified k := by
  have hreports : (site.key k).value.value.Reports (site.key k).diagnostics := by
    cases k with
    | name n => exact .none (by simp [key])
    | expr e => exact site.reports_value e
  have hunknown : (site.key k).value.value = .unknown ↔ ∃ e, k = .expr e ∧ site.Waits e := by
    cases k with
    | name n => simp [key]
    | expr e =>
      rw [show (site.key (.expr e)).value.value = (site.value e).value from rfl,
        value_eq_unknown_iff]
      simp
  refine ⟨hreports, hunknown, fun h => ?_, fun hd hw => ?_⟩
  · obtain ⟨e, rfl, hw⟩ := hunknown.1 h
    obtain ⟨r, hr, -⟩ := hw.pending
    exact List.ne_nil_of_mem (List.mem_map_of_mem hr)
  · cases hv : (site.key k).value.value with
    | known text => exact ⟨text, rfl⟩
    | unknown =>
      obtain ⟨e, hk, he⟩ := hunknown.1 hv
      exact absurd he (hw e hk)
    | errored => exact absurd hd (hreports.errored_iff.1 hv)

end TagSite

/-! ### Blocks -/

/-- The tags of a block are written as an object literal at a place. -/
def Block.WritesTags (b : Block) (location : Location) (items : List (Key × Expr)) : Prop :=
  ∃ a, b.attribute? "tags" = some a ∧ a.value.isNull = false ∧ a.location = location ∧
    a.expression = .object items

theorem Block.writesTags_iff {b : Block} {location : Location} {items : List (Key × Expr)} :
    b.WritesTags location items ↔ ∃ a, b.presentAttribute? "tags" = some a ∧
      a.location = location ∧ a.expression = .object items := by
  simp only [WritesTags, presentAttribute?, Option.filter_eq_some_iff, Bool.not_eq_true', and_assoc]

namespace TagBlock

variable {scope : Scope} {b : Block}

theorem resolve_of_writesTags {location : Location} {items : List (Key × Expr)}
    (h : b.WritesTags location items) : resolve scope b =
      let site : TagSite := ⟨b.context scope, location, b.address⟩
      ⟨b.address, some b.heading.location, items.map fun item => (site.tag item).value, false,
        items.flatMap fun item => (site.tag item).diagnostics⟩ := by
  obtain ⟨a, hp, rfl, he⟩ := Block.writesTags_iff.1 h
  simp only [resolve, hp, he, TagPolicy.tags, List.map_map, List.flatMap_map, Function.comp_def]

/-- A block without an object literal for its tags is errored, with one error and no tags. -/
theorem resolve_of_not_writesTags (scope : Scope)
    (h : ∀ location items, ¬ b.WritesTags location items) :
    ∃ d : Diagnostic, d.isError = true ∧
      resolve scope b = ⟨b.address, some b.heading.location, [], true, [d]⟩ := by
  rw [resolve]
  cases hp : b.presentAttribute? "tags" with
  | none => exact ⟨b.missing "tags", rfl, by simp only [Block.require, hp]⟩
  | some a =>
    cases ht : TagPolicy.tags a.expression with
    | error reason =>
      exact ⟨(reason.diagnostic.located (some a.location) b.address).about a.expression,
        reason.isError_diagnostic, by simp only [ht]⟩
    | ok items =>
      have hw : b.WritesTags a.location items :=
        Block.writesTags_iff.2 ⟨a, hp, rfl, TagPolicy.eq_object_of_tags ht⟩
      exact absurd hw (h a.location items)

theorem errored_resolve_iff :
    (resolve scope b).errored = true ↔ ∀ location items, ¬ b.WritesTags location items := by
  constructor
  · intro h location items hw
    rw [resolve_of_writesTags hw] at h
    cases h
  · intro h
    obtain ⟨d, -, hd⟩ := resolve_of_not_writesTags scope h
    rw [hd]

theorem forall_not_writesTags_iff : (∀ location items, ¬ b.WritesTags location items) ↔
    b.attribute? "tags" = none ∨ ∃ a, b.attribute? "tags" = some a ∧
      (a.value.isNull = true ∨ ∀ items, a.expression ≠ .object items) := by
  cases ha : b.attribute? "tags" with
  | none => simp [Block.WritesTags, ha]
  | some a =>
    simp only [Block.WritesTags, ha, Option.some.injEq, reduceCtorEq, false_or, exists_eq_left',
      not_and]
    constructor
    · intro h
      cases hn : a.value.isNull with
      | true => exact Or.inl rfl
      | false => exact Or.inr fun items => h a.location items hn rfl
    · rintro (hn | he) location items hn' -
      · exact absurd (hn.symm.trans hn') (by simp)
      · exact he items

/-- A block is errored exactly if its tags are missing, null or no object literal; then it has no tags
and one diagnostic, an error. Otherwise each pair gives a tag, which no other pair has an influence
on, and the diagnostics of its key and then of its value; and both sides are classified. -/
theorem resolve_classified (scope : Scope) (b : Block) :
    ((resolve scope b).errored = true ↔ b.attribute? "tags" = none ∨
      ∃ a, b.attribute? "tags" = some a ∧
        (a.value.isNull = true ∨ ∀ items, a.expression ≠ .object items)) ∧
    ((resolve scope b).errored = true → (resolve scope b).tags = [] ∧
      ∃ d, (resolve scope b).diagnostics = [d] ∧ d.isError = true) ∧
    ∀ location items, b.WritesTags location items →
      let site : TagSite := ⟨b.context scope, location, b.address⟩
      (resolve scope b).tags =
          items.map (fun item => ⟨(site.key item.1).value, (site.side item.2).value⟩) ∧
        (resolve scope b).diagnostics = items.flatMap (fun item =>
          (site.key item.1).diagnostics ++ (site.side item.2).diagnostics) ∧
        (∀ item ∈ items, site.Classified item.1 ∧ site.Classified (.expr item.2)) ∧
        ∀ (b' : Block) (items' : List (Key × Expr)), b'.heading = b.heading →
          b'.locals = b.locals → b'.WritesTags location items' → ∀ i : Nat,
            items'[i]? = items[i]? → (resolve scope b').tags[i]? = (resolve scope b).tags[i]? := by
  refine ⟨errored_resolve_iff.trans forall_not_writesTags_iff, fun h => ?_, fun location items h => ?_⟩
  · obtain ⟨d, hd, hr⟩ := resolve_of_not_writesTags scope (errored_resolve_iff.1 h)
    rw [hr]
    exact ⟨rfl, d, rfl, hd⟩
  · intro site
    rw [resolve_of_writesTags h]
    refine ⟨rfl, rfl, fun item _ => ⟨site.classified _, site.classified _⟩, ?_⟩
    intro b' items' hheading hlocals h' i hi
    have hsite : (⟨b'.context scope, location, b'.address⟩ : TagSite) = site := by
      rw [Block.context, Block.address, hheading, hlocals]
      rfl
    rw [resolve_of_writesTags h', hsite]
    simp only [List.getElem?_map, hi]
    rfl

/-- Three tags, the last with a value of its own: the first one waits for a variable. -/
def mixedItems (last : Expr) : List (Key × Expr) :=
  [(.name "zone", .ofPath "var" ["zone"]), (.expr (.string "os"), .string "linux"),
    (.name "last", last)]

/-- A block with such tags. -/
def mixed (last : Expr) : Block :=
  let here : Location := ⟨none, none⟩
  ⟨⟨"data", [tagsType, "tags"], here⟩, [⟨"tags", .object (mixedItems last), .unknown, here⟩], [],
    [], []⟩

/-- A tag waits, one is known and one calls a function; the first one stays when the last one is
replaced. -/
theorem resolve_classified_mixed :
    let scope : Scope := ⟨[("var", .object [("zone", .unknown)])], []⟩
    let site : TagSite := ⟨(mixed .null).context scope, ⟨none, none⟩, (mixed .null).address⟩
    let call : Expr := .call "f" [] false
    (mixed call).WritesTags ⟨none, none⟩ (mixedItems call) ∧ site.Waits (.ofPath "var" ["zone"]) ∧
      (resolve scope (mixed call)).errored = false ∧
      (resolve scope (mixed call)).tags.map Tag.state = [.unknown, .known, .errored] ∧
      (site.side call).diagnostics ≠ [] ∧
      (resolve scope (mixed .null)).tags[0]? = (resolve scope (mixed call)).tags[0]? := by
  intro scope site call
  have hwrites : ∀ last, (mixed last).WritesTags ⟨none, none⟩ (mixedItems last) :=
    fun last => ⟨_, rfl, rfl, rfl, rfl⟩
  obtain ⟨herrored, -, hpairs⟩ := resolve_classified scope (mixed call)
  obtain ⟨htags, -, hsides, hisolated⟩ := hpairs _ _ (hwrites call)
  obtain ⟨-, hzone⟩ := hsides (.name "zone", .ofPath "var" ["zone"]) (by simp [mixedItems])
  obtain ⟨-, hcall⟩ := hsides (.name "last", call) (by simp [mixedItems])
  refine ⟨hwrites call, ?_, ?_, ?_, ?_, ?_⟩
  · obtain ⟨e, he, hwaits⟩ := hzone.unknown_iff.1 rfl
    cases he
    exact hwaits
  · rw [← Bool.not_eq_true, herrored, ← forall_not_writesTags_iff]
    exact fun h => h _ _ (hwrites call)
  · rw [htags]
    rfl
  · exact hcall.reports.errored_iff.1 rfl
  · exact hisolated (mixed .null) (mixedItems .null) rfl rfl (hwrites .null) 0 rfl

end TagBlock

end Preflight
